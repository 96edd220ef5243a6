import FormulaCompiler.Invocation
import FormulaCompiler.Proofs.FileSystem

/-!
# Where the artifact of a file belongs

What a path says is its components (`components`), whatever slashes and dots it is written with. A plain name that is
joined to a directory is one more component at the end (`components_join`), and in a file system it leads one step on
from where the directory leads (`follow_join`). The unit of a file is a part of the file's name, so the name of its
artifact is plain. Main statement: the artifact of a file is directly in the directory that has been asked for
(`artifact_confined`).
-/

namespace FormulaCompiler

namespace Path

/-- One component of a path. -/
inductive Component where
  | root
  /-- The directory that a relative path starts from, where the path names it. -/
  | here
  | parent
  | normal (name : String)
  deriving DecidableEq

def Component.ofName (name : String) : Component := if name = ".." then .parent else .normal name

/-- The components of a path. Empty names count for nothing, and single dots only at the beginning of a relative
path. -/
def components (path : String) : List Component :=
  (if isAbsolute path then [.root] else if (split path).head? = some "." then [.here] else []) ++
    (steps path).map .ofName

/-- Whether a text is a name that a file can have. -/
structure Plain (name : String) : Prop where
  ne_empty : name ≠ ""
  ne_here : name ≠ "."
  ne_parent : name ≠ ".."
  slash_notMem : '/' ∉ name.toList

variable {path directory name : String}

/-! ### Splitting -/

theorem splitChars_slash (path : List Char) : splitChars ('/' :: path) = [] :: splitChars path := rfl

theorem splitChars_cons {c : Char} (h : c ≠ '/') {path first : List Char} {others : List (List Char)}
    (hpath : splitChars path = first :: others) : splitChars (c :: path) = (c :: first) :: others := by
  unfold splitChars at hpath ⊢
  rw [List.foldr_cons, if_neg h, hpath]

theorem exists_splitChars (path : List Char) : ∃ first others, splitChars path = first :: others := by
  induction path with
  | nil => exact ⟨[], [], rfl⟩
  | cons c path ih =>
      obtain ⟨first, others, hpath⟩ := ih
      by_cases hslash : c = '/'
      · subst hslash
        exact ⟨[], _, splitChars_slash path⟩
      · exact ⟨_, _, splitChars_cons hslash hpath⟩

theorem splitChars_of_notMem {path : List Char} (h : '/' ∉ path) : splitChars path = [path] := by
  induction path with
  | nil => rfl
  | cons c path ih =>
      exact splitChars_cons (List.ne_of_not_mem_cons h).symm (ih (List.not_mem_of_not_mem_cons h))

theorem splitChars_append (path more : List Char) :
    splitChars (path ++ '/' :: more) = splitChars path ++ splitChars more := by
  induction path with
  | nil => exact splitChars_slash more
  | cons c path ih =>
      obtain ⟨first, others, hpath⟩ := exists_splitChars path
      rw [hpath] at ih
      by_cases hslash : c = '/'
      · subst hslash
        rw [List.cons_append, splitChars_slash, splitChars_slash, ih, hpath]
        rfl
      · rw [List.cons_append, splitChars_cons hslash ih, splitChars_cons hslash hpath]
        rfl

theorem slash_notMem_of_mem_splitChars {path piece : List Char} (h : piece ∈ splitChars path) : '/' ∉ piece := by
  induction path generalizing piece with
  | nil =>
      obtain rfl := List.mem_singleton.1 h
      exact List.not_mem_nil
  | cons c path ih =>
      obtain ⟨first, others, hpath⟩ := exists_splitChars path
      rw [hpath] at ih
      by_cases hslash : c = '/'
      · subst hslash
        rw [splitChars_slash, hpath] at h
        obtain rfl | hlater := List.mem_cons.1 h
        · exact List.not_mem_nil
        · exact ih hlater
      · rw [splitChars_cons hslash hpath] at h
        obtain rfl | hlater := List.mem_cons.1 h
        · exact List.not_mem_cons_of_ne_of_not_mem (Ne.symm hslash) (ih List.mem_cons_self)
        · exact ih (List.mem_cons_of_mem _ hlater)

theorem split_ne_nil (path : String) : split path ≠ [] := by
  obtain ⟨first, others, hpath⟩ := exists_splitChars path.toList
  rw [split, hpath]
  exact List.cons_ne_nil _ _

theorem split_of_notMem (h : '/' ∉ path.toList) : split path = [path] := by
  rw [split, splitChars_of_notMem h, List.map_singleton, String.ofList_toList]

theorem split_append (path more : String) : split (path ++ "/" ++ more) = split path ++ split more := by
  have htext : (path ++ "/" ++ more).toList = path.toList ++ '/' :: more.toList := by
    rw [String.toList_append, String.toList_append, List.append_assoc]
    rfl
  rw [split, htext, splitChars_append, List.map_append]
  rfl

theorem slash_notMem_of_mem_split {piece : String} (h : piece ∈ split path) : '/' ∉ piece.toList := by
  obtain ⟨letters, hmem, rfl⟩ := List.mem_map.1 h
  rw [String.toList_ofList]
  exact slash_notMem_of_mem_splitChars hmem

theorem plain_of_mem_steps (h : name ∈ steps path) (hparent : name ≠ "..") : Plain name := by
  obtain ⟨hmem, hname⟩ := List.mem_filter.1 h
  rw [Bool.and_eq_true, bne_iff_ne, bne_iff_ne] at hname
  exact ⟨hname.1, hname.2, hparent, slash_notMem_of_mem_split hmem⟩

/-! ### Joining -/

/-- A plain name that is joined to a directory stands behind it, with a slash between them where there has to be one. -/
theorem join_eq (directory : String) (h : Plain name) :
    (directory = "" ∨ directory.toList.getLast? = some '/') ∧ join directory name = directory ++ name ∨
      directory ≠ "" ∧ join directory name = directory ++ "/" ++ name := by
  have hrelative : ¬ isAbsolute name = true := by
    rw [isAbsolute, beq_iff_eq]
    intro hhead
    exact h.slash_notMem (List.mem_of_head? hhead)
  unfold join
  rw [if_neg hrelative]
  split
  · rename_i hends
    rw [Bool.or_eq_true, String.isEmpty_iff, beq_iff_eq] at hends
    exact .inl ⟨hends, rfl⟩
  · rename_i hopen
    rw [Bool.or_eq_true, String.isEmpty_iff] at hopen
    exact .inr ⟨fun hempty => hopen (.inl hempty), rfl⟩

theorem isAbsolute_append (h : directory ≠ "") (more : String) :
    isAbsolute (directory ++ more) = isAbsolute directory := by
  cases hletters : directory.toList with
  | nil => exact absurd (String.toList_inj.1 hletters) h
  | cons c letters =>
      rw [isAbsolute, isAbsolute, String.toList_append, hletters]
      rfl

theorem isAbsolute_join (directory : String) (h : Plain name) :
    isAbsolute (join directory name) = isAbsolute directory := by
  have hname : isAbsolute name = false := by
    rw [isAbsolute, beq_eq_false_iff_ne]
    intro hhead
    exact h.slash_notMem (List.mem_of_head? hhead)
  obtain ⟨-, hjoin⟩ | ⟨hne, hjoin⟩ := join_eq directory h
  · by_cases hempty : directory = ""
    · rw [hjoin, hempty, String.empty_append, hname]
      rfl
    · rw [hjoin, isAbsolute_append hempty]
  · rw [hjoin, String.append_assoc, isAbsolute_append hne]

/-- A plain name is the last to be split off a path that it has been joined to. Before it stands what the directory is
split into, unless the directory ends with a slash or is not named at all. -/
theorem split_join (directory : String) (h : Plain name) : ∃ names, split (join directory name) = names ++ [name] ∧
    (split directory = names ∨ split directory = names ++ [""]) := by
  obtain ⟨rfl | hslash, hjoin⟩ | ⟨-, hjoin⟩ := join_eq directory h
  · exact ⟨[], by rw [hjoin, String.empty_append, split_of_notMem h.slash_notMem, List.nil_append], .inr rfl⟩
  · obtain ⟨letters, hletters⟩ := List.getLast?_eq_some_iff.1 hslash
    have hdirectory : directory = String.ofList letters ++ "/" ++ "" := by
      rw [← String.toList_inj, hletters, String.append_empty, String.toList_append, String.toList_ofList]
      rfl
    refine ⟨split (String.ofList letters), ?_, .inr ?_⟩
    · rw [hjoin, hdirectory, String.append_empty, split_append, split_of_notMem h.slash_notMem]
    · rw [hdirectory, split_append]
      rfl
  · exact ⟨split directory, by rw [hjoin, split_append, split_of_notMem h.slash_notMem], .inl rfl⟩

theorem steps_join (directory : String) (h : Plain name) : steps (join directory name) = steps directory ++ [name] := by
  have hname : (name != "" && name != ".") = true := by
    rw [Bool.and_eq_true, bne_iff_ne, bne_iff_ne]
    exact ⟨h.ne_empty, h.ne_here⟩
  have hlast : ([name].filter fun name => name != "" && name != ".") = [name] := List.filter_cons_of_pos hname
  obtain ⟨names, hjoined, hdirectory⟩ := split_join directory h
  have hsteps : steps directory = names.filter fun name => name != "" && name != "." := by
    obtain hsame | hslash := hdirectory
    · rw [steps, hsame]
    · rw [steps, hslash, List.filter_append]
      exact List.append_nil _
  rw [hsteps, steps, hjoined, List.filter_append, hlast]

theorem head?_split_join (directory : String) (h : Plain name) :
    (split (join directory name)).head? = some "." ↔ (split directory).head? = some "." := by
  obtain ⟨names, hjoined, hdirectory⟩ := split_join directory h
  cases names with
  | nil =>
      obtain hnone | hempty := hdirectory
      · exact absurd hnone (split_ne_nil directory)
      · rw [hjoined, hempty]
        exact iff_of_false (fun hhere => h.ne_here (Option.some.inj hhere)) (by decide)
  | cons first others =>
      obtain hsame | hslash := hdirectory
      · rw [hjoined, hsame]
        rfl
      · rw [hjoined, hslash]
        rfl

/-- **A plain name that is joined to a directory is one more component.** -/
theorem components_join (directory : String) (h : Plain name) :
    components (join directory name) = components directory ++ [.normal name] := by
  have hname : Component.ofName name = .normal name := if_neg h.ne_parent
  rw [components, components, isAbsolute_join directory h, steps_join directory h, List.map_append, List.map_singleton,
    hname, ← List.append_assoc]
  simp only [head?_split_join directory h]

/-! ### Units -/

/-- Whether a unit is called what the name of a file calls for: all of the name in front of its first dot, or all of the
name where it begins with one. -/
structure CalledFor (unit name : String) : Prop where
  ne_empty : unit ≠ ""
  isPrefix : unit.toList <+: name.toList
  slash_notMem : '/' ∉ unit.toList
  hidden : name.toList.head? = some '.' → unit = name
  dot_notMem : name.toList.head? ≠ some '.' → '.' ∉ unit.toList
  longest : name.toList.head? ≠ some '.' → ∀ letters, letters <+: name.toList → '.' ∉ letters → letters <+: unit.toList

theorem CalledFor.plain {unit : String} (h : CalledFor unit name) : Plain (unit ++ ".asm") := by
  have hlong : 4 ≤ (unit ++ ".asm").length := by
    rw [String.length_append]
    exact Nat.le_add_left 4 unit.length
  have hne {short : String} (hshort : short.length < 4) : unit ++ ".asm" ≠ short := by
    rintro rfl
    omega
  refine ⟨hne (by decide), hne (by decide), hne (by decide), ?_⟩
  rw [String.toList_append, List.mem_append]
  rintro (hunit | hending)
  · exact h.slash_notMem hunit
  · exact absurd hending (by decide)

theorem fileName?_of_components (h : (components path).getLast? = some (.normal name)) :
    fileName? path = some name ∧ Plain name := by
  cases hsteps : (steps path).getLast? with
  | none =>
      rw [components, List.getLast?_eq_none_iff.1 hsteps, List.map_nil, List.append_nil] at h
      split at h
      · cases h
      · split at h <;> cases h
  | some last =>
      have hlast : Component.ofName last = .normal name := by
        rw [components, List.getLast?_append, List.getLast?_map, hsteps] at h
        exact Option.some.inj h
      unfold Component.ofName at hlast
      split at hlast <;> cases hlast
      rename_i hparent
      refine ⟨?_, plain_of_mem_steps (List.mem_of_getLast? hsteps) hparent⟩
      rw [fileName?, hsteps]
      exact if_neg hparent

theorem calledFor_unitName (hname : fileName? path = some name) (h : Plain name) : CalledFor (unitName path) name := by
  obtain ⟨c, letters, hletters⟩ := List.exists_cons_of_ne_nil fun hnil => h.ne_empty (String.toList_inj.1 hnil)
  have hunit : unitName path = if (name.toList.takeWhile (· ≠ '.')).isEmpty then name
      else String.ofList (name.toList.takeWhile (· ≠ '.')) := by
    rw [unitName, hname]
  by_cases hdot : c = '.'
  · have hhidden : name.toList.head? = some '.' := by rw [hletters, hdot, List.head?_cons]
    have hwhole : unitName path = name := by
      rw [hunit, hletters, hdot]
      rfl
    rw [hwhole]
    exact ⟨h.ne_empty, List.prefix_refl _, h.slash_notMem, fun _ => rfl, absurd hhidden, absurd hhidden⟩
  · have hstem : (unitName path).toList = name.toList.takeWhile (· ≠ '.') := by
      have hfirst : ¬ (name.toList.takeWhile (· ≠ '.')).isEmpty = true := by
        rw [hletters, List.takeWhile_cons_of_pos (by simpa using hdot)]
        exact Bool.false_ne_true
      rw [hunit, if_neg hfirst, String.toList_ofList]
    have hfront : (unitName path).toList <+: name.toList := hstem ▸ List.takeWhile_prefix _
    have hfree : '.' ∉ (unitName path).toList := by
      rw [hstem]
      exact fun hmem => by simpa using List.all_eq_true.1 List.all_takeWhile '.' hmem
    have hlongest (free : List Char) (hfree : free <+: name.toList) (hdots : '.' ∉ free) :
        free <+: (unitName path).toList := by
      obtain ⟨rest, hrest⟩ := hfree
      have hall : ∀ d ∈ free, decide (d ≠ '.') = true := by
        intro d hd
        rw [decide_eq_true_eq]
        rintro rfl
        exact hdots hd
      rw [hstem, ← hrest, List.takeWhile_append_of_pos hall]
      exact List.prefix_append _ _
    have hvisible : name.toList.head? ≠ some '.' := by
      rw [hletters, List.head?_cons, ne_eq, Option.some.injEq]
      exact hdot
    have hne : unitName path ≠ "" := by
      intro hempty
      rw [hempty, hletters, List.takeWhile_cons_of_pos (by simpa using hdot)] at hstem
      cases hstem
    exact {
      ne_empty := hne
      isPrefix := hfront
      slash_notMem := fun hmem => h.slash_notMem (hfront.subset hmem)
      hidden := fun hhidden => absurd hhidden hvisible
      dot_notMem := fun _ => hfree
      longest := fun _ => hlongest }

end Path

/-! ### Artifacts -/

namespace FileSystem

variable {fs : FileSystem} {place : Place} {name directory : String}

theorem follow_append (fs : FileSystem) (start : Place) (names more : List String) :
    fs.follow start (names ++ more) = (fs.follow start names).bind fun place => fs.follow place more := by
  induction names generalizing start with
  | nil => rfl
  | cons name names ih =>
      rw [List.cons_append, follow, follow]
      split
      · rfl
      · rfl
      · split_ifs
        all_goals first | exact ih _ | rfl

theorem follow_plain {above : Place} (h : Path.Plain name) (hfollow : fs.follow above [name] = .ok place) :
    fs.entry? above = some .directory ∧ place = above ++ [name] := by
  have hdirectory := directory_of_follow hfollow
  rw [follow_of_directory hdirectory, if_neg (not_or.2 ⟨h.ne_empty, h.ne_here⟩), if_neg h.ne_parent] at hfollow
  split_ifs at hfollow
  cases hfollow
  exact ⟨hdirectory, rfl⟩

/-- A plain name that is joined to a directory leads one step on from where the directory leads. -/
theorem follow_join (h : Path.Plain name) (hresolve : fs.resolve (Path.join directory name) = .ok place) :
    ∃ above, fs.follow (fs.start directory) (Path.split directory) = .ok above ∧ fs.entry? above = some .directory ∧
      place = above ++ [name] := by
  have hstart : fs.start (Path.join directory name) = fs.start directory := by
    rw [start, start, Path.isAbsolute_join directory h]
  obtain ⟨names, hjoined, hdirectory⟩ := Path.split_join directory h
  rw [resolve] at hresolve
  split at hresolve
  · cases hresolve
  · rw [hstart, hjoined, follow_append] at hresolve
    cases hnames : fs.follow (fs.start directory) names with
    | error cause =>
        rw [hnames] at hresolve
        cases hresolve
    | ok above =>
        rw [hnames] at hresolve
        obtain ⟨habove, hplace⟩ := follow_plain h hresolve
        refine ⟨above, ?_, habove, hplace⟩
        obtain hsame | hslash := hdirectory
        · rw [hsame, hnames]
        · rw [hslash, follow_append, hnames]
          exact (follow_of_directory habove "" []).trans (if_pos (.inl rfl))

end FileSystem

/-- **The artifact of a file is directly in the directory that has been asked for.** Its name is the unit and an ending,
so its path goes on from the directory by one component, and wherever it can be written that is an entry of the
directory. -/
theorem Invocation.artifact_confined {path name : String}
    (hname : (Path.components path).getLast? = some (.normal name)) (directory : String) (tracing : Tracing) :
    let s := Invocation.session ⟨.file path, directory, tracing⟩
    Path.CalledFor s.unit name ∧
    Path.components s.artifactPath = Path.components directory ++ [.normal (s.unit ++ ".asm")] ∧
    (s.artifactPath = directory ++ (s.unit ++ ".asm") ∨ s.artifactPath = directory ++ "/" ++ (s.unit ++ ".asm")) ∧
    ∀ (fs written : FileSystem) (content : ByteArray), fs.write s.artifactPath content = .ok written →
      ∃ above, fs.follow (fs.start directory) (Path.split directory) = .ok above ∧ fs.entry? above = some .directory ∧
        written = fs.put (above ++ [s.unit ++ ".asm"]) (.file content) := by
  obtain ⟨hfile, hplain⟩ := Path.fileName?_of_components hname
  have hunit : Path.CalledFor (Path.unitName path) name := Path.calledFor_unitName hfile hplain
  refine ⟨hunit, Path.components_join directory hunit.plain, ?_, fun fs written content hwrite => ?_⟩
  · exact (Path.join_eq directory hunit.plain).imp And.right And.right
  · obtain ⟨place, hcreates⟩ := FileSystem.exists_createsAt_of_write hwrite
    obtain ⟨above, hleads, habove, rfl⟩ := FileSystem.follow_join hunit.plain hcreates.leads
    exact ⟨above, hleads, habove, Except.ok.inj (hwrite.symm.trans hcreates.write_eq)⟩

/-- A file that is named with dots in it and behind it, and a directory with a slash at its end. -/
theorem Invocation.artifact_confined_dotted :
    (Path.components "src/archive.tar.kb/.").getLast? = some (.normal "archive.tar.kb") ∧
    let s := Invocation.session ⟨.file "src/archive.tar.kb/.", "../out/", {}⟩
    s.unit = "archive" ∧ Path.components s.artifactPath = [.parent, .normal "out", .normal "archive.asm"] := by
  have hname : (Path.components "src/archive.tar.kb/.").getLast? = some (.normal "archive.tar.kb") := by decide +kernel
  obtain ⟨-, hcomponents, -⟩ := artifact_confined hname "../out/" {}
  exact ⟨hname, by decide +kernel, hcomponents.trans (by decide +kernel)⟩

end FormulaCompiler
