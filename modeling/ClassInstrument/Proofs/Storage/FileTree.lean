import ClassInstrument.Storage.FileTree
import Mathlib.Data.List.Induction

/-!
# What changes of a file tree do

Each change is described by what is afterwards at every place.  Directories are created with those
above them unless a file is on the way, and then they are all that is new; a file is written into a
directory, and nothing else changes.

* `FileTree.get?_set` — what is where after a node was put somewhere;
* `FileTree.createDirectories_ok`, `FileTree.exists_createDirectories` — what creating directories
  does, and when it succeeds;
* `FileTree.writeFile_eq` — what writing a file does;
* `FileTree.Rooted` — everything is in a directory.
-/

namespace ClassInstrument

namespace FileTree

variable {t t' : FileTree} {place : List String}

/-! ### Looking -/

@[simp]
theorem get?_nil (t : FileTree) : t.get? [] = some .directory := rfl

theorem isDirectory_iff : t.isDirectory place = true ↔ t.get? place = some .directory := by
  simp [isDirectory]

@[simp]
theorem takes_set (t : FileTree) (place : List String) (node : FileNode) :
    (t.set place node).takes = t.takes := by
  unfold set
  split <;> rfl

/-- Looking up after the nodes at one place were replaced. -/
theorem lookup_replace (nodes : List (List String × FileNode)) (place q : List String)
    (node : FileNode) :
    (nodes.map fun (components, old) =>
      if components = place then (components, node) else (components, old)).lookup q =
      if q = place then (nodes.lookup q).map fun _ => node else nodes.lookup q := by
  induction nodes with
  | nil => simp
  | cons entry nodes ih =>
    obtain ⟨components, old⟩ := entry
    rw [List.map_cons]
    by_cases here : q = components
    · subst here
      by_cases same : q = place <;> simp [same]
    · have other : (q == components) = false := by simpa using here
      by_cases same : components = place
      · subst same
        simpa [List.lookup_cons, other] using ih
      · simpa [List.lookup_cons, same, other] using ih

/-- What is where after a node was put somewhere. -/
theorem get?_set (t : FileTree) (node : FileNode) (below : place ≠ []) (q : List String) :
    (t.set place node).get? q = if q = place then some node else t.get? q := by
  by_cases root : q = []
  · subst root
    simp [get?, below.symm]
  simp only [get?, List.isEmpty_iff, root, if_false]
  unfold set
  split
  · rename_i there
    refine (lookup_replace t.nodes place q node).trans ?_
    split
    · subst q
      obtain ⟨old, eq⟩ := Option.isSome_iff_exists.mp there
      simp [eq]
    · rfl
  · rename_i missing
    rw [List.lookup_append]
    by_cases same : q = place
    · subst same
      simp [Option.not_isSome_iff_eq_none.mp missing]
    · have other : (q == place) = false := by simpa using same
      simp [List.lookup_cons, same, other]

/-! ### Creating directories -/

/-- One tree has what another one has, and directories at other places that are listed. -/
structure AddsDirectories (t t' : FileTree) (places : List (List String)) : Prop where
  takes : t'.takes = t.takes
  get? : ∀ q, t'.get? q = if q ∈ places then some .directory else t.get? q
  keeps : ∀ q ∈ places, t.get? q = none ∨ t.get? q = some .directory

theorem createDirectory_ok (below : place ≠ []) (ok : t.createDirectory place = .ok t') :
    AddsDirectories t t' [place] := by
  unfold createDirectory at ok
  split at ok
  case h_1 there =>
    cases ok
    refine ⟨rfl, fun q => ?_, by simp [there]⟩
    split
    · simp_all
    · rfl
  case h_2 => cases ok
  case h_3 missing =>
    split at ok
    · cases ok
      exact ⟨takes_set .., by simpa using get?_set t _ below, by simp [missing]⟩
    · cases ok

theorem exists_createDirectory (free : ∀ name, t.takes name = true)
    (noFile : ∀ bytes, t.get? place ≠ some (.file bytes)) :
    ∃ t', t.createDirectory place = .ok t' := by
  unfold createDirectory
  split
  · exact ⟨_, rfl⟩
  · exact absurd ‹_› (noFile _)
  · simp [free]

theorem ne_nil_of_mem_leading {taken cs q : List String} (mem : q ∈ leading taken cs) : q ≠ [] := by
  induction cs generalizing taken with
  | nil => cases mem
  | cons c cs ih =>
    obtain rfl | mem := List.mem_cons.mp mem
    · simp
    · exact ih mem

/-- Directories that are created one after the other. -/
theorem foldlM_createDirectory_ok {places : List (List String)}
    (below : ∀ place ∈ places, place ≠ []) (ok : places.foldlM createDirectory t = .ok t') :
    AddsDirectories t t' places := by
  induction places generalizing t with
  | nil =>
    cases ok
    exact ⟨rfl, by simp, by simp⟩
  | cons place places ih =>
    rw [List.foldlM_cons] at ok
    cases first : t.createDirectory place with
    | error e => simp [first, bind, Except.bind] at ok
    | ok mid =>
      rw [first] at ok
      have new := createDirectory_ok (below _ (List.mem_cons_self ..)) first
      have others := ih (fun q mem => below q (List.mem_cons_of_mem _ mem)) ok
      refine ⟨others.takes.trans new.takes, fun q => ?_, fun q mem => ?_⟩
      · rw [others.get? q, new.get? q]
        by_cases here : q = place <;> by_cases later : q ∈ places <;> simp [here, later]
      · obtain rfl | mem := List.mem_cons.mp mem
        · exact new.keeps q (List.mem_singleton_self q)
        · by_cases here : q = place
          · exact here ▸ new.keeps place (List.mem_singleton_self place)
          · simpa [new.get? q, here] using others.keeps q mem

theorem exists_foldlM_createDirectory {places : List (List String)}
    (below : ∀ place ∈ places, place ≠ []) (free : ∀ name, t.takes name = true)
    (noFile : ∀ place ∈ places, ∀ bytes, t.get? place ≠ some (.file bytes)) :
    ∃ t', places.foldlM createDirectory t = .ok t' := by
  induction places generalizing t with
  | nil => exact ⟨t, rfl⟩
  | cons place places ih =>
    obtain ⟨mid, first⟩ := exists_createDirectory free (noFile _ (List.mem_cons_self ..))
    have new := createDirectory_ok (below _ (List.mem_cons_self ..)) first
    obtain ⟨t', others⟩ := @ih mid (fun q mem => below q (List.mem_cons_of_mem _ mem))
      (by simpa [new.takes] using free) fun q mem bytes => by
        rw [new.get? q]
        split
        · simp
        · exact noFile q (List.mem_cons_of_mem _ mem) bytes
    exact ⟨t', by rw [List.foldlM_cons, first]; exact others⟩

/-- The leading parts behind a part already taken are the longer parts of the whole. -/
theorem mem_leading {taken cs q : List String} :
    q ∈ leading taken cs ↔ q <+: taken ++ cs ∧ taken.length < q.length := by
  induction cs generalizing taken with
  | nil =>
    rw [List.append_nil]
    constructor
    · intro mem
      cases mem
    · rintro ⟨above, longer⟩
      have := above.length_le
      omega
  | cons c cs ih =>
    have split : taken ++ c :: cs = (taken ++ [c]) ++ cs := by simp
    rw [leading, List.mem_cons, ih, split]
    constructor
    · rintro (rfl | ⟨above, longer⟩)
      · exact ⟨List.prefix_append .., by simp⟩
      · refine ⟨above, ?_⟩
        rw [List.length_append] at longer
        omega
    · rintro ⟨above, longer⟩
      by_cases same : q.length = (taken ++ [c]).length
      · have whole : taken ++ [c] <+: (taken ++ [c]) ++ cs := List.prefix_append ..
        have inner := List.prefix_of_prefix_length_le above whole (Nat.le_of_eq same)
        exact .inl (inner.eq_of_length same)
      · rw [List.length_append, List.length_singleton] at same
        exact .inr ⟨above, by rw [List.length_append, List.length_singleton]; omega⟩

theorem mem_leading_nil {q : List String} : q ∈ leading [] place ↔ q <+: place ∧ q ≠ [] := by
  rw [mem_leading, List.nil_append, List.length_nil, List.length_pos_iff]

/-- What creating a directory with those above it does: all of them are there, and nothing else
changes. -/
theorem createDirectories_ok (ok : t.createDirectories place = .ok t') :
    t'.takes = t.takes ∧
      ∀ q, t'.get? q = if q <+: place then some .directory else t.get? q := by
  have adds := foldlM_createDirectory_ok (fun _ mem => ne_nil_of_mem_leading mem) ok
  refine ⟨adds.takes, fun q => ?_⟩
  by_cases root : q = []
  · simp [root]
  · simp [adds.get? q, mem_leading_nil, root]

/-- No directory is created where a file is on the way. -/
theorem createDirectories_below_file {q : List String} {bytes : Bytes} (above : q <+: place)
    (file : t.get? q = some (.file bytes)) : ∃ e, t.createDirectories place = .error e := by
  cases created : t.createDirectories place with
  | error e => exact ⟨e, rfl⟩
  | ok t' =>
    have below : q ≠ [] := by
      rintro rfl
      simp at file
    have adds := foldlM_createDirectory_ok (fun _ mem => ne_nil_of_mem_leading mem) created
    simpa [file] using adds.keeps q (mem_leading_nil.mpr ⟨above, below⟩)

/-- A directory is created unless a file is on the way. -/
theorem exists_createDirectories (free : ∀ name, t.takes name = true)
    (noFile : ∀ q, q <+: place → ∀ bytes, t.get? q ≠ some (.file bytes)) :
    ∃ t', t.createDirectories place = .ok t' :=
  exists_foldlM_createDirectory (fun _ mem => ne_nil_of_mem_leading mem) free
    fun q mem => noFile q (mem_leading_nil.mp mem).1

/-- Nothing happens where all the directories are there. -/
theorem createDirectories_of_isDirectory
    (there : ∀ q, q <+: place → t.get? q = some .directory) :
    t.createDirectories place = .ok t := by
  have stays : ∀ places : List (List String), (∀ q ∈ places, t.get? q = some .directory) →
      places.foldlM createDirectory t = .ok t := by
    intro places there
    induction places with
    | nil => rfl
    | cons first places ih =>
      have same : t.createDirectory first = .ok t := by
        simp [createDirectory, there first (List.mem_cons_self ..)]
      rw [List.foldlM_cons, same]
      exact ih fun q mem => there q (List.mem_cons_of_mem _ mem)
  exact stays _ fun q mem => there q (mem_leading_nil.mp mem).1

/-! ### Writing files -/

/-- A file is written into a directory, unless a directory has its place. -/
theorem writeFile_eq (bytes : Bytes) (free : ∀ name, t.takes name = true)
    (parent : t.get? place.dropLast = some .directory)
    (noDirectory : t.get? place ≠ some .directory) :
    t.writeFile place bytes = .ok (t.set place (.file bytes)) := by
  have notDirectory : t.isDirectory place = false := by
    simpa [isDirectory] using noDirectory
  simp [writeFile, notDirectory, isDirectory_iff.mpr parent, free]

/-! ### Consistent trees -/

/-- Everything is in a directory. -/
def Rooted (t : FileTree) : Prop :=
  ∀ place, (t.get? place).isSome → t.get? place.dropLast = some .directory

/-- The directories above a directory. -/
theorem Rooted.prefix_isDirectory (rooted : t.Rooted) {q : List String}
    (there : t.get? place = some .directory) (above : q <+: place) :
    t.get? q = some .directory := by
  induction place using List.reverseRec with
  | nil => simp_all
  | append_singleton place last ih =>
    obtain rfl | above := List.prefix_concat_iff.mp above
    · exact there
    · have parent := rooted _ (Option.isSome_of_eq_some there)
      rw [List.dropLast_concat] at parent
      exact ih parent above

/-- Nothing is below a place with nothing there. -/
theorem Rooted.get?_append (rooted : t.Rooted) (missing : t.get? place = none) (q : List String) :
    t.get? (place ++ q) = none := by
  induction q using List.reverseRec with
  | nil => rwa [List.append_nil]
  | append_singleton q last ih =>
    by_contra there
    have parent := rooted _ (Option.ne_none_iff_isSome.mp there)
    rw [← List.append_assoc, List.dropLast_concat, ih] at parent
    cases parent

end FileTree

/-! ### At paths -/

namespace FileAction

variable {t t' : FileTree} {path : String} {bytes : Bytes}

/-- Writing a file where the directory can be created. -/
theorem write_of_created (created : t.createDirectories (Path.components path).dropLast = .ok t') :
    write path bytes t = writeFile path bytes t' := by
  simp [write, createParents, change, created, bind, EStateM.bind]

/-- Nothing is written where the directory cannot be created. -/
theorem write_of_uncreated {e : Failure}
    (failed : t.createDirectories (Path.components path).dropLast = .error e) :
    write path bytes t = .error e t := by
  simp [write, createParents, change, failed, bind, EStateM.bind]

/-- No file is written where the path says or the tree has a directory. -/
theorem writeFile_refused
    (directory : Path.namesDirectory path = true ∨
      t.get? (Path.components path) = some .directory) :
    writeFile path bytes t = .error .file t := by
  unfold writeFile
  split
  · rfl
  · rename_i mayName
    have there := FileTree.isDirectory_iff.mpr (directory.resolve_left mayName)
    simp [change, FileTree.writeFile, there]

theorem writeFile_ok (free : ∀ name, t.takes name = true)
    (mayName : Path.namesDirectory path = false)
    (parent : t.get? (Path.components path).dropLast = some .directory)
    (noDirectory : t.get? (Path.components path) ≠ some .directory) :
    writeFile path bytes t = .ok () (t.set (Path.components path) (.file bytes)) := by
  simp [writeFile, mayName, change, FileTree.writeFile_eq bytes free parent noDirectory]

end FileAction

end ClassInstrument
