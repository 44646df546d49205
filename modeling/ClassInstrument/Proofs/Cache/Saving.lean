import ClassInstrument.Proofs.Cache.Entries
import ClassInstrument.Proofs.Storage.FileTree
import Mathlib.Logic.Function.Basic

/-!
# Saving and loading

Files are known by their names, and a file is written as a whole or not at all; which writes fail is
left open, and so is the order in which a save goes through the keys.

* `DiskCache.exists_loadWith_new` — what a new cache finds where there are only files of entries;
* `DiskCache.Saving` — how a save writes files, and in which order;
* `DiskCache.exists_save_parts` — **what a save does**: it writes the entries of the keys up to some
  point, and lists the others as unsaved;
* `DiskCache.save_stopping` — what is there in the middle of a save is what one that stops leaves;
* `DiskCache.onDisk`, `DiskCache.save_eq`, `DiskCache.load_eq` — saving into a directory, and loading
  from it.
-/

namespace ClassInstrument.DiskCache

theorem length_key (bytes : Bytes) : (key bytes).length = keyLength := by
  simp [key, Sha1.digest, Word.length_encode]
  rfl

/-! ### Files -/

/-- The bytes of files by their names. -/
abbrev Files := String → Option Bytes

/-- Reading the file with a name. -/
def readIn (files : Files) (name : String) : Except Failure Bytes :=
  match files name with
  | some bytes => .ok bytes
  | none => .error .file

/-- The names of all files, in any order. -/
def Lists (names : List String) (files : Files) : Prop :=
  ∀ name, name ∈ names ↔ (files name).isSome

/-- There are only files of entries. -/
def OnlyEntries (files : Files) : Prop :=
  ∀ name, (files name).isSome → ∃ key : Bytes, key.length = keyLength ∧ name = fileName key

/-- What a new cache finds where there are only files of entries. -/
theorem exists_loadWith_new {files : Files} {names : List String} (own : OnlyEntries files)
    (lists : Lists names files) (name : Identifier) (directory : String) :
    ∃ c, (new name directory).loadWith names (readIn files) = .ok c ∧ c.unsaved = [] ∧
      ∀ key, c.entries.lookup key = if key.length = keyLength then files (fileName key) else none := by
  have plain : ∀ name ∈ names, (keyOfFileName? name).isSome → IsPlain name := by
    intro name member _
    obtain ⟨key, -, rfl⟩ := own name ((lists name).1 member)
    exact isPlain_fileName key
  have readable : ∀ name ∈ names, ∃ bytes, readIn files name = .ok bytes := by
    intro name member
    obtain ⟨bytes, here⟩ := Option.isSome_iff_exists.1 ((lists name).1 member)
    exact ⟨bytes, by rw [readIn, here]⟩
  obtain ⟨c, loads⟩ : ∃ c, (new name directory).loadWith names (readIn files) = .ok c :=
    exists_loadWith_iff.2 fun name member _ => readable name member
  refine ⟨c, loads, by rw [loadWith_same loads]; rfl, fun key => ?_⟩
  have last : ∀ name, lastTaken names key = some name ↔
      name ∈ names ∧ keyOfFileName? name = some key := fun _ =>
    lastTaken_eq_some_iff (namesApart_of_plain plain)
  rw [lookup_loadWith loads]
  cases taken : lastTaken names key with
  | some name =>
    obtain ⟨member, for_key⟩ := lastTaken_mem taken
    obtain ⟨twenty, rfl⟩ := (keyOfFileName?_of_plain (plain name member (for_key ▸ rfl))).1 for_key
    obtain ⟨bytes, there⟩ := Option.isSome_iff_exists.1 ((lists _).1 member)
    simp only [readIn, there, if_pos twenty, Except.toOption]
  | none =>
    show none = _
    split
    · next twenty =>
      refine (Option.not_isSome_iff_eq_none.1 fun there => ?_).symm
      have found := (last _).2 ⟨(lists _).2 there, keyOfFileName?_fileName twenty⟩
      rw [taken] at found
      cases found
    · rfl

/-! ### Saves -/

variable {φ : Type} {held : φ → Files}

/-- A save: how files are written into a storage, given what that holds, and in which order.  The
file of an entry is written as a whole, or all files stay what they were. -/
structure Saving (held : φ → Files) where
  write : String → Bytes → EStateM Failure φ Unit
  written : ∀ key bytes storage storage', write (fileName key) bytes storage = .ok () storage' →
    held storage' = Function.update (held storage) (fileName key) (some bytes)
  refused : ∀ key bytes storage e storage',
    write (fileName key) bytes storage = .error e storage' → held storage' = held storage
  arrange : List Bytes → List Bytes
  arranged : ∀ keys, (arrange keys).Perm keys

/-- Save what is not saved. -/
def Saving.run (saving : Saving held) (c : DiskCache) :
    φ → (Except Failure Unit × DiskCache) × φ :=
  { c with unsaved := saving.arrange c.unsaved }.saveWith saving.write

/-! ### What a save does -/

section Save

variable {write : String → Bytes → EStateM Failure φ Unit} {c : DiskCache} {k value : Bytes}
  {keys : List Bytes} {storage storage' : φ}

theorem save_missing (entry : c.entries.lookup k = none) :
    saveWith.save write c (k :: keys) storage = saveWith.save write c keys storage := by
  simp only [saveWith.save, entry]

theorem save_written (entry : c.entries.lookup k = some value)
    (wrote : write (fileName k) value storage = .ok () storage') :
    saveWith.save write c (k :: keys) storage = saveWith.save write c keys storage' := by
  simp only [saveWith.save, entry, wrote]

theorem save_refused {e : Failure} (entry : c.entries.lookup k = some value)
    (refused : write (fileName k) value storage = .error e storage') :
    saveWith.save write c (k :: keys) storage =
      ((.error e, { c with unsaved := k :: keys }), storage') := by
  simp only [saveWith.save, entry, refused]

end Save

/-- Files behind writing the entry of a key, if there is one. -/
def writeEntry (entries : List (Bytes × Bytes)) (files : Files) (key : Bytes) : Files :=
  match entries.lookup key with
  | some value => Function.update files (fileName key) (some value)
  | none => files

/-- Files behind writing the entries of some keys. -/
def writeAll (entries : List (Bytes × Bytes)) (keys : List Bytes) (files : Files) : Files :=
  keys.foldl (writeEntry entries) files

/-- What a save does: it writes the keys up to some point, and succeeds if that is the end. -/
theorem exists_save_parts (saving : Saving held) (c : DiskCache) (pending : List Bytes)
    (storage : φ) : ∃ done rest, pending = done ++ rest ∧
      (saveWith.save saving.write c pending storage).1.2 = { c with unsaved := rest } ∧
      ((saveWith.save saving.write c pending storage).1.1 = .ok () ↔ rest = []) ∧
      held (saveWith.save saving.write c pending storage).2 =
        writeAll c.entries done (held storage) := by
  induction pending generalizing storage with
  | nil => exact ⟨[], [], rfl, rfl, by simp [saveWith.save], rfl⟩
  | cons key pending ih =>
    cases entry : c.entries.lookup key with
    | none =>
      rw [save_missing entry]
      obtain ⟨done, rest, rfl, cache, success, files⟩ := ih storage
      refine ⟨key :: done, rest, rfl, cache, success, ?_⟩
      rw [files, writeAll, writeAll, List.foldl_cons, writeEntry, entry]
    | some value =>
      cases wrote : saving.write (fileName key) value storage with
      | ok _ storage' =>
        rw [save_written entry wrote]
        obtain ⟨done, rest, rfl, cache, success, files⟩ := ih storage'
        refine ⟨key :: done, rest, rfl, cache, success, ?_⟩
        rw [files, saving.written key value storage storage' wrote, writeAll, writeAll,
          List.foldl_cons, writeEntry, entry]
      | error e storage' =>
        rw [save_refused entry wrote]
        exact ⟨[], key :: pending, rfl, rfl, by simp, saving.refused key value storage e _ wrote⟩

/-- A save that stops at the file with a name. -/
def Saving.stoppingAt (saving : Saving held) (name : String) : Saving held where
  write other bytes storage :=
    if other = name then .error .file storage else saving.write other bytes storage
  written key bytes storage storage' wrote := by
    split at wrote
    · cases wrote
    · exact saving.written key bytes storage storage' wrote
  refused key bytes storage e storage' failed := by
    split at failed
    · cases failed
      rfl
    · exact saving.refused key bytes storage e storage' failed
  arrange := saving.arrange
  arranged := saving.arranged

/-- What is there between two files of a save is what a save leaves behind that stops there. -/
theorem save_stopping (saving : Saving held) {c c' : DiskCache} {front rest : List Bytes}
    {k value : Bytes} {storage storage' : φ} (entry : c.entries.lookup k = some value)
    (others : ∀ key ∈ front, fileName key ≠ fileName k)
    (saves : saveWith.save saving.write c front storage = ((.ok (), c'), storage')) :
    saveWith.save (saving.stoppingAt (fileName k)).write c (front ++ k :: rest) storage =
      ((.error .file, { c with unsaved := k :: rest }), storage') := by
  induction front generalizing storage with
  | nil =>
    obtain ⟨-, rfl⟩ := Prod.mk.inj saves
    exact save_refused entry (if_pos rfl)
  | cons first front ih =>
    obtain ⟨here, others⟩ := List.forall_mem_cons.1 others
    rw [List.cons_append]
    cases entry' : c.entries.lookup first with
    | none =>
      rw [save_missing entry'] at saves ⊢
      exact ih others saves
    | some value' =>
      have same : (saving.stoppingAt (fileName k)).write (fileName first) value' storage
          = saving.write (fileName first) value' storage := if_neg here
      cases wrote : saving.write (fileName first) value' storage with
      | ok _ storage₁ =>
        rw [save_written entry' wrote] at saves
        rw [save_written entry' (same.trans wrote)]
        exact ih others saves
      | error e storage₁ =>
        rw [save_refused entry' wrote] at saves
        cases saves

section WriteAll

variable {entries : List (Bytes × Bytes)} {keys : List Bytes} {files : Files}

theorem writeEntry_other {name : String} {key : Bytes} (other : name ≠ fileName key) :
    writeEntry entries files key name = files name := by
  unfold writeEntry
  cases entries.lookup key with
  | none => rfl
  | some value => exact Function.update_of_ne other _ _

/-- Writing leaves the files with other names alone. -/
theorem writeAll_other {name : String} (other : ∀ key ∈ keys, name ≠ fileName key) :
    writeAll entries keys files name = files name := by
  induction keys generalizing files with
  | nil => rfl
  | cons first keys ih =>
    obtain ⟨here, others⟩ := List.forall_mem_cons.1 other
    exact (ih others).trans (writeEntry_other here)

/-- Behind writing, the file of a key holds its entry. -/
theorem writeAll_written (files : Files) (twenty : ∀ key ∈ keys, key.length = keyLength)
    (present : ∀ key ∈ keys, (entries.lookup key).isSome) :
    ∀ key ∈ keys, writeAll entries keys files (fileName key) = entries.lookup key := by
  induction keys generalizing files with
  | nil => nofun
  | cons first keys ih =>
    obtain ⟨twentyFirst, twenty⟩ := List.forall_mem_cons.1 twenty
    obtain ⟨presentFirst, present⟩ := List.forall_mem_cons.1 present
    have later := fun files => ih files twenty present
    refine List.forall_mem_cons.2 ⟨?_, later _⟩
    by_cases again : first ∈ keys
    · exact later _ first again
    · -- The later writes are to files of other keys.
      have others : ∀ key ∈ keys, fileName first ≠ fileName key := fun key member same =>
        again ((fileName_inj twentyFirst (twenty key member)).1 same ▸ member)
      obtain ⟨value, entry⟩ := Option.isSome_iff_exists.1 presentFirst
      rw [writeAll, List.foldl_cons, ← writeAll, writeAll_other others, writeEntry, entry]
      exact Function.update_self _ _ _

end WriteAll

/-! ### In a directory -/

/-- The files in a directory. -/
def filesIn (directory : List String) (t : FileTree) : Files := fun name =>
  match t.get? (directory ++ [name]) with
  | some (.file bytes) => some bytes
  | _ => none

section Disk

variable {t : FileTree} {directory : String} {k bytes : Bytes}

/-- Creating a directory changes no files in it. -/
theorem filesIn_createDirectories {t' : FileTree} {place : List String}
    (created : t.createDirectories place = .ok t') : filesIn place t' = filesIn place t := by
  funext name
  have below : ¬ place ++ [name] <+: place := fun above => by
    have := above.length_le
    rw [List.length_append, List.length_singleton] at this
    omega
  unfold filesIn
  rw [(FileTree.createDirectories_ok created).2, if_neg below]

theorem filesIn_set {place : List String} (name : String) :
    filesIn place (t.set (place ++ [name]) (.file bytes)) =
      Function.update (filesIn place t) name (some bytes) := by
  funext other
  unfold filesIn
  rw [FileTree.get?_set _ _ (by simp)]
  by_cases same : other = name
  · subst same
    simp
  · simp [same]

/-- A file is written into a directory that is there as a whole or not at all. -/
theorem writeFile_cases (t : FileTree) (path : String) (bytes : Bytes) :
    (∃ e, FileAction.writeFile path bytes t = .error e t) ∨
      FileAction.writeFile path bytes t = .ok () (t.set (Path.components path) (.file bytes)) := by
  unfold FileAction.writeFile
  split
  · exact .inl ⟨_, rfl⟩
  · unfold FileAction.change FileTree.writeFile
    split
    · next changed =>
      dsimp only at changed
      split at changed
      · cases changed
      · cases changed
        exact .inr rfl
    · exact .inl ⟨_, rfl⟩

/-- The file of a key is written as a whole, or all files in the directory stay what they were. -/
theorem write_cases (t : FileTree) (directory : String) (k bytes : Bytes) :
    (∃ e t', FileAction.write (Path.join directory (fileName k)) bytes t = .error e t' ∧
      filesIn (Path.components directory) t' = filesIn (Path.components directory) t) ∨
    ∃ t', FileAction.write (Path.join directory (fileName k)) bytes t = .ok () t' ∧
      filesIn (Path.components directory) t' =
        Function.update (filesIn (Path.components directory) t) (fileName k) (some bytes) := by
  have place := components_join_fileName directory k
  have parent : (Path.components (Path.join directory (fileName k))).dropLast =
      Path.components directory := by rw [place, List.dropLast_concat]
  cases created : t.createDirectories (Path.components directory) with
  | error e =>
    exact .inl ⟨e, t, FileAction.write_of_uncreated (parent.symm ▸ created), rfl⟩
  | ok t₁ =>
    have kept := filesIn_createDirectories created
    rw [FileAction.write_of_created (parent.symm ▸ created)]
    obtain ⟨e, failed⟩ | wrote := writeFile_cases t₁ (Path.join directory (fileName k)) bytes
    · exact .inl ⟨e, t₁, failed, kept⟩
    · refine .inr ⟨_, wrote, ?_⟩
      rw [place, filesIn_set, kept]

/-- Saving into a directory. -/
def onDisk (directory : String) : Saving (filesIn (Path.components directory)) where
  write name bytes := FileAction.write (Path.join directory name) bytes
  written k bytes t t' wrote := by
    obtain ⟨e, t₁, failed, -⟩ | ⟨t₁, wrote', files⟩ := write_cases t directory k bytes
    · cases wrote.symm.trans failed
    · cases wrote.symm.trans wrote'
      exact files
  refused k bytes t e t' failed := by
    obtain ⟨e, t₁, failed', files⟩ | ⟨t₁, wrote, -⟩ := write_cases t directory k bytes
    · cases failed.symm.trans failed'
      exact files
    · cases failed.symm.trans wrote
  arrange := id
  arranged _ := .rfl

theorem save_eq (c : DiskCache) (t : FileTree) : c.save t = (onDisk c.directory).run c t := rfl

/-- Loading takes over the files of the directory, unless it has no name; where it is missing, it has
no files. -/
theorem load_eq (c : DiskCache) (t : FileTree) (named : c.directory ≠ "")
    (there : t.isDirectory (Path.components c.directory)) :
    c.load t = c.loadWith (t.names (Path.components c.directory))
      (readIn (filesIn (Path.components c.directory) t)) := by
  have reads : (fun name => t.read (Path.components c.directory ++ [name])) =
      readIn (filesIn (Path.components c.directory) t) := by
    funext name
    unfold readIn filesIn FileTree.read
    cases t.get? (Path.components c.directory ++ [name]) with
    | none => rfl
    | some node => cases node <;> rfl
  unfold load
  rw [if_neg (by simp [named, there]), reads]

/-- Where there are only files in the directory, all of them are listed. -/
theorem lists_names {place : List String}
    (files : ∀ name, t.get? (place ++ [name]) ≠ some .directory) :
    Lists (t.names place) (filesIn place t) := by
  intro name
  have named : (place ++ [name]).isEmpty = false := by simp
  have there : (filesIn place t name).isSome ↔ (t.nodes.lookup (place ++ [name])).isSome := by
    have noDirectory := files name
    unfold filesIn
    unfold FileTree.get? at noDirectory ⊢
    rw [named, if_neg Bool.false_ne_true] at *
    cases found : t.nodes.lookup (place ++ [name]) with
    | none => simp
    | some node =>
      cases node with
      | directory => exact absurd found noDirectory
      | file bytes => simp
  rw [there, List.lookup_isSome_iff]
  unfold FileTree.names
  rw [List.mem_mergeSort, List.mem_filterMap]
  refine exists_congr fun node => and_congr_right fun _ => ?_
  obtain ⟨components, what⟩ := node
  rw [beq_iff_eq]
  constructor
  · intro last
    dsimp only at last
    split at last
    · next ending =>
      obtain ⟨above, rfl⟩ := List.getLast?_eq_some_iff.1 ending
      obtain ⟨rfl, same⟩ := Option.ite_none_right_eq_some.1 last
      rw [List.dropLast_concat, Option.some.inj same]
    · cases last
  · rintro rfl
    simp

end Disk

end ClassInstrument.DiskCache
