import ClassInstrument.Dump.Service
import ClassInstrument.Proofs.Storage.FileTree
import ClassInstrument.Proofs.Storage.Path

/-!
# Classes that are written out do not get in each other's way

The files and the directories below the root of a service are told apart by a dot: the names of the
files have one and those of the directories do not.  So no file is where another class needs a
directory, whatever the classes are called and in whatever order they come.

A name without segments has no file of its own, its path is that of the root.  Once the root is a
directory nothing is written for it.  If it comes first, then the root becomes a file, and no class
that comes later is written.

* `DumpService.session` — a service from its start to its end, and what comes later;
* `DumpService.Holds` — files and directories below the root are told apart by a dot;
* `DumpService.Settled` — and there is no file at the root, nor will there be one;
* `DumpService.Blocked` — there is a file at the root;
* `DumpService.session_apart` — what a service leaves behind.
-/

namespace ClassInstrument

open ClassInstrument.Path

namespace DumpService

variable {root : String} {t : FileTree}

/-! ### Sessions -/

/-- Queue classes one after the other. -/
def writeAll (s : DumpService) (items : List (String × Bytes)) : DumpService :=
  items.foldl (fun s item => s.write item.1 item.2) s

/-- A service that takes classes until it is shut down, and then some that come too late. -/
def session (root : String) (items later : List (String × Bytes)) (t : FileTree) :
    DumpService × FileTree :=
  let (stopped, t) := ((start root).writeAll items).shutdown t
  (stopped.writeAll later).shutdown t

theorem writeAll_queue (s : DumpService) (items : List (String × Bytes)) :
    s.writeAll items = { s with queue := s.queue.map (items.reverse ++ ·) } := by
  unfold writeAll
  induction items generalizing s with
  | nil => simp
  | cons item items ih =>
    rw [List.foldl_cons, ih]
    obtain ⟨root, queue⟩ := s
    cases queue <;> simp [write]

/-- What was written before the end is written into the tree in that order, and nothing else is. -/
theorem session_eq (root : String) (items later : List (String × Bytes)) (t : FileTree) :
    session root items later t = (⟨root, none⟩, items.foldl (writeClass root) t) := by
  simp [session, writeAll_queue, start, shutdown]

/-! ### One class -/

/-- The file system of a service: it takes every name, and the directory that the root is in is
there. -/
structure Inside (root : String) (t : FileTree) : Prop where
  free : ∀ name, t.takes name = true
  ne_nil : components root ≠ []
  parents : ∀ q, q <+: (components root).dropLast → t.get? q = some .directory

theorem eq_or_prefix_dropLast {α : Type} {l q : List α} (above : q <+: l) :
    q = l ∨ q <+: l.dropLast := by
  induction l using List.reverseRec with
  | nil => exact .inr above
  | append_singleton l last => simpa using List.prefix_concat_iff.mp above

/-- The file of a class, its directory, and the directories on the way from the root. -/
theorem place_eq (root : String) {name : String} (named : classSegments name ≠ []) :
    ∃ packages file, classComponents name = packages ++ [file] ∧ '.' ∈ file.toList ∧
      (∀ package ∈ packages, '.' ∉ package.toList) ∧
      components (ofClass root name) = components root ++ packages ++ [file] := by
  obtain ⟨packages, simple, segments, eq⟩ := classComponents_eq named
  refine ⟨packages, simple ++ ".class", eq, by simp, fun package mem => ?_, ?_⟩
  · exact (of_mem_classSegments (segments ▸ List.mem_append_left _ mem)).2.1
  · rw [components_ofClass, eq, List.append_assoc]

/-- The tree after a class, if its directory cannot be created. -/
theorem writeClass_of_uncreated {name : String} {bytes : Bytes} {e : Failure}
    (failed : t.createDirectories (components (ofClass root name)).dropLast = .error e) :
    writeClass root t (name, bytes) = t := by
  simp [writeClass, FileAction.write_of_uncreated failed]

/-- A class is written into its file if its directory can be created. -/
theorem writeClass_of_created {mid : FileTree} {name : String} (bytes : Bytes)
    (free : ∀ name, mid.takes name = true)
    (created : t.createDirectories (components (ofClass root name)).dropLast = .ok mid)
    (mayName : namesDirectory (ofClass root name) = false)
    (parent : mid.get? (components (ofClass root name)).dropLast = some .directory)
    (noDirectory : mid.get? (components (ofClass root name)) ≠ some .directory) :
    writeClass root t (name, bytes) = mid.set (components (ofClass root name)) (.file bytes) := by
  simp only [writeClass, FileAction.write_of_created created,
    FileAction.writeFile_ok free mayName parent noDirectory]

namespace Inside

/-- A class without segments is left out if the root is a directory or has to be one. -/
theorem writeClass_blank (inside : Inside root t) {name : String} (blank : classSegments name = [])
    (bytes : Bytes)
    (directory : namesDirectory root = true ∨ t.get? (components root) = some .directory) :
    writeClass root t (name, bytes) = t := by
  have created := FileTree.createDirectories_of_isDirectory inside.parents
  simp only [writeClass, ofClass_of_nil root blank, FileAction.write_of_created created,
    FileAction.writeFile_refused directory]

/-- Otherwise it is written as the root. -/
theorem writeClass_root (inside : Inside root t) {name : String} (blank : classSegments name = [])
    (bytes : Bytes) (mayName : namesDirectory root = false)
    (noDirectory : t.get? (components root) ≠ some .directory) :
    writeClass root t (name, bytes) = t.set (components root) (.file bytes) := by
  have created := FileTree.createDirectories_of_isDirectory inside.parents
  have written := @FileAction.writeFile_ok t root bytes inside.free mayName
    (inside.parents _ (List.prefix_refl _)) noDirectory
  simp only [writeClass, ofClass_of_nil root blank, FileAction.write_of_created created, written]

end Inside

/-! ### A directory with classes -/

/-- Below the root, files are where a component has a dot, and directories where none has. -/
structure Holds (root : String) (t : FileTree) : Prop extends Inside root t where
  files : ∀ q bytes, t.get? (components root ++ q) = some (.file bytes) →
    ∃ component ∈ q, '.' ∈ component.toList
  directories : ∀ q, t.get? (components root ++ q) = some .directory →
    ∀ component ∈ q, '.' ∉ component.toList

theorem prefix_append_cases {α : Type} {q a b : List α} (above : q <+: a ++ b) :
    q <+: a ∨ ∃ r, q = a ++ r ∧ r <+: b := by
  obtain above' | ⟨r, rfl⟩ := List.prefix_or_prefix_of_prefix above (List.prefix_append a b)
  · exact .inl above'
  · exact .inr ⟨r, rfl, (List.prefix_append_right_inj a).mp above⟩

namespace Holds

variable {name : String}

/-- No file is on the way to a directory for classes. -/
theorem noFile (holds : Holds root t) {packages : List String}
    (noDots : ∀ package ∈ packages, '.' ∉ package.toList) (q : List String)
    (above : q <+: components root ++ packages) (bytes : Bytes) :
    t.get? q ≠ some (.file bytes) := by
  intro file
  obtain above | ⟨r, rfl, inner⟩ := prefix_append_cases above
  · obtain rfl | higher := eq_or_prefix_dropLast above
    · obtain ⟨component, mem, -⟩ := holds.files [] bytes (by rwa [List.append_nil])
      cases mem
    · rw [holds.parents q higher] at file
      cases file
  · obtain ⟨component, mem, dot⟩ := holds.files r bytes file
    exact noDots component (inner.subset mem) dot

/-- What a class with segments changes: its file is there, and the directories above it. -/
theorem get?_writeClass (holds : Holds root t) (named : classSegments name ≠ []) (bytes : Bytes) :
    (writeClass root t (name, bytes)).takes = t.takes ∧
      ∀ q, (writeClass root t (name, bytes)).get? q =
        if q = components (ofClass root name) then some (.file bytes)
        else if q <+: (components (ofClass root name)).dropLast then some .directory
        else t.get? q := by
  obtain ⟨packages, file, -, dot, noDots, place⟩ := place_eq root named
  have way : (components (ofClass root name)).dropLast = components root ++ packages := by
    rw [place, List.dropLast_concat]
  obtain ⟨mid, created⟩ := FileTree.exists_createDirectories holds.free (holds.noFile noDots)
  obtain ⟨takes, get?_mid⟩ := FileTree.createDirectories_ok created
  have parent : mid.get? (components root ++ packages) = some .directory := by simp [get?_mid]
  -- A directory at the place of the file would have a dot.
  have noDirectory : mid.get? (components (ofClass root name)) ≠ some .directory := by
    intro directory
    have longer : ¬ components root ++ packages ++ [file] <+: components root ++ packages := by
      intro above
      have := above.length_le
      rw [List.length_append, List.length_singleton] at this
      omega
    rw [place, get?_mid, if_neg longer, List.append_assoc] at directory
    exact holds.directories _ directory file (by simp) dot
  have free : ∀ name, mid.takes name = true := by
    rw [takes]
    exact holds.free
  rw [← way] at created parent
  have eq := writeClass_of_created bytes free created
    (namesDirectory_ofClass root named) parent noDirectory
  have ne_nil : components (ofClass root name) ≠ [] := by simp [place]
  rw [eq]
  refine ⟨(FileTree.takes_set ..).trans takes, fun q => ?_⟩
  rw [FileTree.get?_set _ _ ne_nil, way, get?_mid]

theorem writeClass_named (holds : Holds root t) (named : classSegments name ≠ []) (bytes : Bytes) :
    Holds root (writeClass root t (name, bytes)) := by
  obtain ⟨takes, get?_eq⟩ := holds.get?_writeClass named bytes
  obtain ⟨packages, file, -, dot, noDots, place⟩ := place_eq root named
  rw [place, List.dropLast_concat] at get?_eq
  have free : ∀ name', (DumpService.writeClass root t (name, bytes)).takes name' = true := by
    rw [takes]
    exact holds.free
  refine ⟨⟨free, holds.ne_nil, fun q above => ?_⟩, fun q old isFile => ?_, fun q isDirectory => ?_⟩
  · have short : q ≠ components root ++ packages ++ [file] := by
      rintro rfl
      have := (above.trans (List.dropLast_prefix _)).length_le
      simp only [List.length_append, List.length_singleton] at this
      omega
    rw [get?_eq, if_neg short, holds.parents q above, ite_self]
  · rw [get?_eq] at isFile
    split at isFile
    · rename_i here
      rw [List.append_assoc, List.append_cancel_left_eq] at here
      exact ⟨file, by simp [here], dot⟩
    · split at isFile
      · cases isFile
      · exact holds.files q old isFile
  · rw [get?_eq] at isDirectory
    split at isDirectory
    · cases isDirectory
    · split at isDirectory
      · rename_i above
        exact fun component mem =>
          noDots component (((List.prefix_append_right_inj _).mp above).subset mem)
      · exact holds.directories q isDirectory

/-- A class with segments changes nothing outside the root. -/
theorem outside (holds : Holds root t) (named : classSegments name ≠ []) (bytes : Bytes)
    {q : List String} (apart : ¬ components root <+: q) :
    (writeClass root t (name, bytes)).get? q = t.get? q := by
  obtain ⟨packages, file, -, -, -, place⟩ := place_eq root named
  rw [(holds.get?_writeClass named bytes).2, place, List.dropLast_concat]
  split
  · rename_i here
    exact absurd ⟨packages ++ [file], by rw [here, List.append_assoc]⟩ apart
  · split
    · -- The directories on the way to the root were there.
      rename_i above
      obtain above | ⟨r, rfl, -⟩ := prefix_append_cases above
      · obtain rfl | higher := eq_or_prefix_dropLast above
        · exact absurd List.prefix_rfl apart
        · exact (holds.parents q higher).symm
      · exact absurd (List.prefix_append ..) apart
    · rfl

end Holds

/-- The root is a directory, or its path can name nothing else. -/
structure Settled (root : String) (t : FileTree) : Prop extends Holds root t where
  directory : namesDirectory root = true ∨ t.get? (components root) = some .directory

/-- A class with segments makes the root a directory. -/
theorem Holds.settled_writeClass {name : String} (holds : Holds root t)
    (named : classSegments name ≠ []) (bytes : Bytes) :
    Settled root (writeClass root t (name, bytes)) := by
  refine ⟨holds.writeClass_named named bytes, .inr ?_⟩
  obtain ⟨packages, file, -, -, -, place⟩ := place_eq root named
  rw [(holds.get?_writeClass named bytes).2, place, List.dropLast_concat, List.append_assoc]
  simp

namespace Settled

theorem writeClass_blank {name : String} (settled : Settled root t)
    (blank : classSegments name = []) (bytes : Bytes) : writeClass root t (name, bytes) = t :=
  settled.toInside.writeClass_blank blank bytes settled.directory

theorem writeClass (settled : Settled root t) (item : String × Bytes) :
    Settled root (writeClass root t item) := by
  obtain ⟨name, bytes⟩ := item
  by_cases blank : classSegments name = []
  · rwa [settled.writeClass_blank blank]
  · exact settled.toHolds.settled_writeClass blank bytes

/-- A file stays as it is while classes with other segments are written. -/
theorem keeps {name : String} {bytes : Bytes} (settled : Settled root t)
    (named : classSegments name ≠ [])
    (there : t.get? (components (ofClass root name)) = some (.file bytes))
    {item : String × Bytes} (other : classSegments item.1 ≠ classSegments name) :
    (DumpService.writeClass root t item).get? (components (ofClass root name)) =
      some (.file bytes) := by
  obtain ⟨name', bytes'⟩ := item
  by_cases blank : classSegments name' = []
  · rw [settled.writeClass_blank blank]
    exact there
  · -- The file of the other class is neither this one nor below it.
    have notAbove : ¬ components (ofClass root name) <+: components (ofClass root name') := by
      rw [components_ofClass, components_ofClass, List.prefix_append_right_inj]
      exact fun above => other (classSegments_eq_of_above named above).symm
    have notSame : components (ofClass root name) ≠ components (ofClass root name') :=
      fun same => notAbove ⟨[], by rw [List.append_nil, same]⟩
    have notWay : ¬ components (ofClass root name) <+: (components (ofClass root name')).dropLast :=
      fun above => notAbove (above.trans (List.dropLast_prefix _))
    rw [(settled.get?_writeClass blank bytes').2, if_neg notSame, if_neg notWay, there]

theorem outside (settled : Settled root t) (item : String × Bytes) {q : List String}
    (apart : ¬ components root <+: q) :
    (DumpService.writeClass root t item).get? q = t.get? q := by
  obtain ⟨name, bytes⟩ := item
  by_cases blank : classSegments name = []
  · rw [settled.writeClass_blank blank]
  · exact settled.toHolds.outside blank bytes apart

/-- Whatever is written into a directory with classes, it stays one. -/
theorem foldl (settled : Settled root t) (items : List (String × Bytes)) :
    Settled root (items.foldl (DumpService.writeClass root) t) := by
  induction items generalizing t with
  | nil => exact settled
  | cons item items ih =>
    rw [List.foldl_cons]
    exact ih (settled.writeClass item)

theorem foldl_keeps {name : String} {bytes : Bytes} (settled : Settled root t)
    (named : classSegments name ≠ [])
    (there : t.get? (components (ofClass root name)) = some (.file bytes))
    (items : List (String × Bytes))
    (others : ∀ item ∈ items, classSegments item.1 ≠ classSegments name) :
    (items.foldl (DumpService.writeClass root) t).get? (components (ofClass root name)) =
      some (.file bytes) := by
  induction items generalizing t with
  | nil => exact there
  | cons item items ih =>
    obtain ⟨other, others⟩ := List.forall_mem_cons.mp others
    rw [List.foldl_cons]
    exact ih (settled.writeClass item) (settled.keeps named there other) others

theorem foldl_outside (settled : Settled root t) (items : List (String × Bytes))
    {q : List String} (apart : ¬ components root <+: q) :
    (items.foldl (DumpService.writeClass root) t).get? q = t.get? q := by
  induction items generalizing t with
  | nil => rfl
  | cons item items ih =>
    rw [List.foldl_cons, ih (settled.writeClass item), settled.outside item apart]

end Settled

/-! ### A file in place of the directory -/

/-- The root is a file. -/
structure Blocked (root : String) (t : FileTree) : Prop extends Inside root t where
  mayName : namesDirectory root = false
  file : ∃ bytes, t.get? (components root) = some (.file bytes)

/-- A class without segments makes the root a file if nothing or a file is there. -/
theorem Inside.blocked_writeClass {name : String} (inside : Inside root t)
    (blank : classSegments name = []) (bytes : Bytes) (mayName : namesDirectory root = false)
    (noDirectory : t.get? (components root) ≠ some .directory) :
    Blocked root (writeClass root t (name, bytes)) ∧
      ∀ q, (writeClass root t (name, bytes)).get? q =
        if q = components root then some (.file bytes) else t.get? q := by
  have get?_set := FileTree.get?_set t (.file bytes) inside.ne_nil
  rw [inside.writeClass_root blank bytes mayName noDirectory]
  refine ⟨⟨⟨?_, inside.ne_nil, fun q above => ?_⟩, mayName, bytes, by simp [get?_set]⟩, get?_set⟩
  · simpa using inside.free
  · have short : q ≠ components root := by
      rintro rfl
      have := List.length_pos_iff.mpr inside.ne_nil
      have := above.length_le
      rw [List.length_dropLast] at this
      omega
    rw [get?_set, if_neg short, inside.parents q above]

namespace Blocked

theorem noDirectory (blocked : Blocked root t) : t.get? (components root) ≠ some .directory := by
  obtain ⟨bytes, file⟩ := blocked.file
  simp [file]

/-- Where the root is a file, classes with segments are lost. -/
theorem writeClass_named {name : String} (blocked : Blocked root t)
    (named : classSegments name ≠ []) (bytes : Bytes) : writeClass root t (name, bytes) = t := by
  obtain ⟨packages, file, -, -, -, place⟩ := place_eq root named
  obtain ⟨old, there⟩ := blocked.file
  obtain ⟨e, failed⟩ := FileTree.createDirectories_below_file
    (List.prefix_append (components root) packages) there
  apply writeClass_of_uncreated (e := e)
  rw [place, List.dropLast_concat]
  exact failed

/-- Whatever is written, the root stays a file, and it is all that changes. -/
theorem foldl (blocked : Blocked root t) (items : List (String × Bytes)) :
    Blocked root (items.foldl (writeClass root) t) ∧
      ∀ q, q ≠ components root → (items.foldl (writeClass root) t).get? q = t.get? q := by
  induction items generalizing t with
  | nil => exact ⟨blocked, fun _ _ => rfl⟩
  | cons item items ih =>
    obtain ⟨name, bytes⟩ := item
    rw [List.foldl_cons]
    by_cases blank : classSegments name = []
    · obtain ⟨still, get?_eq⟩ :=
        blocked.toInside.blocked_writeClass blank bytes blocked.mayName blocked.noDirectory
      obtain ⟨isFile, others⟩ := ih still
      exact ⟨isFile, fun q ne => by rw [others q ne, get?_eq, if_neg ne]⟩
    · rw [blocked.writeClass_named blank]
      exact ih blocked

/-- Classes with segments leave the file at the root as it is. -/
theorem foldl_named (blocked : Blocked root t) {items : List (String × Bytes)}
    (named : ∀ item ∈ items, classSegments item.1 ≠ []) : items.foldl (writeClass root) t = t := by
  induction items with
  | nil => rfl
  | cons item items ih =>
    obtain ⟨first, others⟩ := List.forall_mem_cons.mp named
    rw [List.foldl_cons, blocked.writeClass_named first, ih others]

end Blocked

/-! ### Sessions and trees -/

/-- The root is a directory before a class without segments could be written as the root: the first
class has segments, or the path of the root can only name a directory. -/
def Opens (root : String) (items : List (String × Bytes)) : Prop :=
  namesDirectory root = true ∨ ∀ first ∈ items.head?, classSegments first.1 ≠ []

instance (root : String) (items : List (String × Bytes)) : Decidable (Opens root items) :=
  inferInstanceAs (Decidable (_ ∨ _))

/-- A tree with the directory that a root is in and nothing at the root. -/
theorem Holds.of_missing (free : ∀ name, t.takes name = true) (rooted : t.Rooted)
    (missing : t.get? (components root) = none)
    (parent : t.get? (components root).dropLast = some .directory) : Holds root t := by
  refine ⟨⟨free, ?_, fun q above => rooted.prefix_isDirectory parent above⟩, fun q bytes file => ?_,
    fun q directory => ?_⟩
  · intro nil
    rw [nil, FileTree.get?_nil] at missing
    cases missing
  · rw [rooted.get?_append missing] at file
    cases file
  · rw [rooted.get?_append missing] at directory
    cases directory

/-- Before a class with segments, the root of a session that opens it is no file. -/
theorem Holds.foldl {items : List (String × Bytes)} (holds : Holds root t)
    (opens : Opens root items) : Holds root (items.foldl (writeClass root) t) := by
  cases items with
  | nil => exact holds
  | cons first items =>
    obtain ⟨name, bytes⟩ := first
    rw [List.foldl_cons]
    by_cases blank : classSegments name = []
    · have slash : namesDirectory root = true :=
        opens.resolve_right fun named => named _ rfl blank
      have settled : Settled root t := ⟨holds, .inl slash⟩
      exact ((settled.writeClass _).foldl items).toHolds
    · exact ((holds.settled_writeClass blank bytes).foldl items).toHolds

/-- The last class with its segments is in their file, in a session that opens the root. -/
theorem Holds.get?_foldl {front back : List (String × Bytes)} {name : String} {bytes : Bytes}
    (holds : Holds root t) (opens : Opens root (front ++ (name, bytes) :: back))
    (named : classSegments name ≠ [])
    (last : ∀ item ∈ back, classSegments item.1 ≠ classSegments name) :
    ((front ++ (name, bytes) :: back).foldl (writeClass root) t).get?
      (components (ofClass root name)) = some (.file bytes) := by
  have opensFront : Opens root front := opens.imp_right fun first item mem =>
    first item (by rw [List.head?_append, Option.mem_def.mp mem]; rfl)
  have before := holds.foldl opensFront
  rw [List.foldl_append, List.foldl_cons]
  refine (before.settled_writeClass named bytes).foldl_keeps named ?_ back last
  rw [(before.get?_writeClass named bytes).2, if_pos rfl]

theorem Holds.foldl_outside {items : List (String × Bytes)} (holds : Holds root t)
    (opens : Opens root items) {q : List String} (apart : ¬ components root <+: q) :
    (items.foldl (writeClass root) t).get? q = t.get? q := by
  cases items with
  | nil => rfl
  | cons first items =>
    obtain ⟨name, bytes⟩ := first
    by_cases blank : classSegments name = []
    · have slash : namesDirectory root = true :=
        opens.resolve_right fun named => named _ rfl blank
      exact Settled.foldl_outside ⟨holds, .inl slash⟩ _ apart
    · rw [List.foldl_cons, (holds.settled_writeClass blank bytes).foldl_outside items apart,
        holds.outside blank bytes apart]

/-- A session that does not open the root starts with a class without segments. -/
theorem exists_of_not_opens {items : List (String × Bytes)} (shut : ¬ Opens root items) :
    namesDirectory root = false ∧
      ∃ name bytes others, items = (name, bytes) :: others ∧ classSegments name = [] := by
  rw [Opens, not_or, Bool.not_eq_true] at shut
  refine ⟨shut.1, ?_⟩
  cases items with
  | nil => simp at shut
  | cons first others => exact ⟨first.1, first.2, others, rfl, by simpa using shut.2⟩

/-- If the root is not opened, it becomes a file, and that is all that changes. -/
theorem Inside.foldl_blocked {items : List (String × Bytes)} (inside : Inside root t)
    (noDirectory : t.get? (components root) ≠ some .directory) (shut : ¬ Opens root items) :
    Blocked root (items.foldl (writeClass root) t) ∧
      ∀ q, q ≠ components root → (items.foldl (writeClass root) t).get? q = t.get? q := by
  obtain ⟨mayName, name, bytes, others, rfl, blank⟩ := exists_of_not_opens shut
  obtain ⟨blocked, get?_eq⟩ := inside.blocked_writeClass blank bytes mayName noDirectory
  obtain ⟨isFile, rest⟩ := blocked.foldl others
  rw [List.foldl_cons]
  exact ⟨isFile, fun q ne => by rw [rest q ne, get?_eq, if_neg ne]⟩

/-- The file at the root is the last class without segments. -/
theorem Inside.get?_foldl_root {front back : List (String × Bytes)} {name : String} {bytes : Bytes}
    (inside : Inside root t) (noDirectory : t.get? (components root) ≠ some .directory)
    (shut : ¬ Opens root (front ++ (name, bytes) :: back)) (blank : classSegments name = [])
    (last : ∀ item ∈ back, classSegments item.1 ≠ []) :
    ((front ++ (name, bytes) :: back).foldl (writeClass root) t).get? (components root) =
      some (.file bytes) := by
  have mayName := (exists_of_not_opens shut).1
  have before : Inside root (front.foldl (writeClass root) t) ∧
      (front.foldl (writeClass root) t).get? (components root) ≠ some .directory := by
    cases front with
    | nil => exact ⟨inside, noDirectory⟩
    | cons first front =>
      have shutFront : ¬ Opens root (first :: front) := shut
      have blocked := (inside.foldl_blocked noDirectory shutFront).1
      exact ⟨blocked.toInside, blocked.noDirectory⟩
  obtain ⟨blocked, get?_eq⟩ := before.1.blocked_writeClass blank bytes mayName before.2
  rw [List.foldl_append, List.foldl_cons, blocked.foldl_named last, get?_eq, if_pos rfl]

/-- What a service leaves behind, on a file system that takes every name, if nothing is at its root
and the directory that the root is in is there.

What comes after the end changes nothing, and nothing outside the root is touched.  Classes with
different segments have different files, and none is above another.  If the root is opened as a
directory, the last class with some segments is in their file.  Otherwise a class without segments
came first: it became the root, and everything with segments is lost. -/
theorem session_apart (free : ∀ name, t.takes name = true) (rooted : t.Rooted)
    (missing : t.get? (components root) = none)
    (parent : t.get? (components root).dropLast = some .directory)
    (items later : List (String × Bytes)) :
    session root items later t = session root items [] t ∧
    (∀ q, ¬ components root <+: q → (session root items later t).2.get? q = t.get? q) ∧
    (∀ a b, classSegments a ≠ [] → components (ofClass root a) <+: components (ofClass root b) →
      classSegments a = classSegments b) ∧
    (Opens root items → ∀ front name bytes back, items = front ++ (name, bytes) :: back →
      classSegments name ≠ [] → (∀ item ∈ back, classSegments item.1 ≠ classSegments name) →
      (session root items later t).2.get? (components root ++ classComponents name) =
        some (.file bytes)) ∧
    (¬ Opens root items →
      (∀ q, q ≠ components root → (session root items later t).2.get? q = t.get? q) ∧
      ∀ front name bytes back, items = front ++ (name, bytes) :: back → classSegments name = [] →
        (∀ item ∈ back, classSegments item.1 ≠ []) →
        (session root items later t).2.get? (components root) = some (.file bytes)) := by
  have holds := Holds.of_missing free rooted missing parent
  have noDirectory : t.get? (components root) ≠ some .directory := by simp [missing]
  rw [session_eq, session_eq]
  refine ⟨rfl, fun q apart => ?outside, fun a b named above => ?apart,
    fun opens front name bytes back items_eq named last => ?written,
    fun shut => ⟨?blocked, ?atRoot⟩⟩
  case outside =>
    by_cases opens : Opens root items
    · exact holds.foldl_outside opens apart
    · refine (holds.toInside.foldl_blocked noDirectory opens).2 q fun same => apart ?_
      exact ⟨[], by rw [List.append_nil, same]⟩
  case apart =>
    rw [components_ofClass, components_ofClass, List.prefix_append_right_inj] at above
    exact classSegments_eq_of_above named above
  case written =>
    subst items_eq
    rw [← components_ofClass]
    exact holds.get?_foldl opens named last
  case blocked => exact (holds.toInside.foldl_blocked noDirectory shut).2
  case atRoot =>
    intro front name bytes back items_eq blank last
    subst items_eq
    exact holds.toInside.get?_foldl_root noDirectory shut blank last

/-- An instance: two spellings of one class, and a name without segments between them. -/
theorem session_apart_two_spellings :
    let t : FileTree := ⟨[], fun _ => true⟩
    let items := [("a.B", [1]), ("", [2]), ("a/B", [3])]
    (∀ name, t.takes name = true) ∧ t.Rooted ∧ t.get? (components "dump") = none ∧
    t.get? (components "dump").dropLast = some .directory ∧ Opens "dump" items ∧
    (session "dump" items [("C", [4])] t).2.get? ["dump", "a", "B.class"] = some (.file [3]) := by
  intro t items
  have dump : components "dump" = ["dump"] := by decide +kernel
  have place : classComponents "a/B" = ["a", "B.class"] := by decide +kernel
  have free : ∀ name, t.takes name = true := fun _ => rfl
  have nothing (place : List String) (below : place ≠ []) : t.get? place = none := by
    simp [FileTree.get?, below, t]
  have rooted : t.Rooted := by
    intro place there
    by_cases below : place = []
    · simp [below]
    · simp [nothing place below] at there
  have missing : t.get? (components "dump") = none := nothing _ (by simp [dump])
  have parent : t.get? (components "dump").dropLast = some .directory := by simp [dump]
  have opens : Opens "dump" items := by decide +kernel
  refine ⟨free, rooted, missing, parent, opens, ?_⟩
  have written := (session_apart free rooted missing parent items [("C", [4])]).2.2.2.1 opens
    [("a.B", [1]), ("", [2])] "a/B" [3] [] rfl (by decide +kernel) (by simp)
  rwa [dump, place] at written

/-- A class without segments that comes first takes the place of the directory. -/
example :
    (session "dump" [("", [1]), ("A", [2])] [] .empty).2.nodes = [(["dump"], .file [1])] := by
  decide +kernel

end DumpService

end ClassInstrument
