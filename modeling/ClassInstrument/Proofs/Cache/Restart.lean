import ClassInstrument.Proofs.Cache.Saving

/-!
# A cache across restarts

A key is taken off the list of those that are not saved only behind the write of its file, and put on
it with every new entry, so entries, list and files agree wherever a save stops.

* `DiskCache.Use`, `DiskCache.behind` — what is done with a cache, and what is there behind it;
* `DiskCache.Settled` — **what is not listed as unsaved is on disk as it is in memory**;
* `DiskCache.Settled.put`, `DiskCache.Settled.save`, `DiskCache.Settled.behind` — every use keeps
  that, so every run does;
* `DiskCache.get?_behind` — what is found behind a run;
* `DiskCache.exists_load_of_save` — what is saved is loaded;
* `DiskCache.nothing_lost` — what is found in a run, and behind a restart.
-/

namespace ClassInstrument.DiskCache

variable {φ : Type} {held : φ → Files}

/-! ### Uses -/

/-- What is done with a cache. -/
inductive Use (held : φ → Files) where
  | get (original : Bytes)
  | put (original made : Bytes)
  | save (saving : Saving held)

/-- The cache and the storage behind a use; looking up changes neither. -/
def Use.next : Use held → DiskCache × φ → DiskCache × φ
  | .get _, state => state
  | .put original made, (c, storage) => (c.put original made, storage)
  | .save saving, (c, storage) => ((saving.run c storage).1.2, (saving.run c storage).2)

/-- The cache and the storage behind some uses. -/
def behind (uses : List (Use held)) (state : DiskCache × φ) : DiskCache × φ :=
  uses.foldl (fun state use => use.next state) state

/-- What a use puts for some bytes. -/
def Use.made? (original : Bytes) : Use held → Option Bytes
  | .put other made => if other = original then some made else none
  | _ => none

/-- What some uses put last for some bytes. -/
def lastPut (original : Bytes) (uses : List (Use held)) : Option Bytes :=
  uses.reverse.findSome? (Use.made? original)

theorem lastPut_cons (original : Bytes) (use : Use held) (uses : List (Use held)) :
    lastPut original (use :: uses) = (lastPut original uses).or (use.made? original) := by
  unfold lastPut
  rw [List.reverse_cons, List.findSome?_append, List.findSome?_singleton]

/-! ### What all uses keep -/

/-- What is not listed as unsaved is on disk as it is in memory. -/
structure Settled (c : DiskCache) (files : Files) : Prop where
  onlyEntries : OnlyEntries files
  twenty : ∀ key, (c.entries.lookup key).isSome → key.length = keyLength
  pending : ∀ key ∈ c.unsaved, (c.entries.lookup key).isSome
  saved : ∀ key, key.length = keyLength → key ∉ c.unsaved →
    c.entries.lookup key = files (fileName key)

namespace Settled

variable {c : DiskCache} {files : Files}

theorem put (settled : Settled c files) (original made : Bytes) :
    Settled (c.put original made) files where
  onlyEntries := settled.onlyEntries
  twenty k there := by
    rw [DiskCache.put, lookup_setEntry] at there
    split at there
    · next same => exact same ▸ length_key original
    · exact settled.twenty k there
  pending k listed := by
    rw [DiskCache.put, lookup_setEntry]
    split
    · rfl
    · next other =>
      refine settled.pending k ?_
      simp only [DiskCache.put] at listed
      split at listed
      · exact listed
      · exact (List.mem_append.1 listed).resolve_right (by simpa using other)
  saved k twenty unlisted := by
    have listed : k ∈ c.unsaved ∨ k = key original → k ∈ (c.put original made).unsaved := by
      simp only [DiskCache.put]
      split
      · next known =>
        rintro (member | rfl)
        · exact member
        · simpa using known
      · rintro (member | rfl) <;> simp [*]
    rw [DiskCache.put, lookup_setEntry, if_neg fun same => unlisted (listed (.inr same))]
    exact settled.saved k twenty fun member => unlisted (listed (.inl member))

/-- A save that stops anywhere. -/
theorem save {storage : φ} (settled : Settled c (held storage)) (saving : Saving held) :
    Settled (saving.run c storage).1.2 (held (saving.run c storage).2) ∧
      (saving.run c storage).1.2.entries = c.entries ∧
      ((saving.run c storage).1.1 = .ok () → (saving.run c storage).1.2.unsaved = []) := by
  have listed : ∀ key, key ∈ saving.arrange c.unsaved ↔ key ∈ c.unsaved := fun key =>
    (saving.arranged c.unsaved).mem_iff
  obtain ⟨done, rest, parts, cache, success, files⟩ := exists_save_parts saving
    { c with unsaved := saving.arrange c.unsaved } (saving.arrange c.unsaved) storage
  change (saving.run c storage).1.2 = _ at cache
  change held (saving.run c storage).2 = _ at files
  change (saving.run c storage).1.1 = _ ↔ _ at success
  rw [parts] at listed
  have present : ∀ key ∈ done, (c.entries.lookup key).isSome := fun key member =>
    settled.pending key ((listed key).1 (List.mem_append_left _ member))
  have twenty : ∀ key ∈ done, key.length = keyLength := fun key member =>
    settled.twenty key (present key member)
  have written := writeAll_written (held storage) twenty present
  rw [cache, files]
  refine ⟨⟨?_, settled.twenty, ?_, ?_⟩, rfl, success.1⟩
  · intro name there
    by_cases own : ∃ key ∈ done, name = fileName key
    · obtain ⟨key, member, rfl⟩ := own
      exact ⟨key, twenty key member, rfl⟩
    · rw [writeAll_other (by simpa using own)] at there
      exact settled.onlyEntries name there
  · exact fun key member => settled.pending key ((listed key).1 (List.mem_append_right _ member))
  · intro key length unlisted
    by_cases member : key ∈ done
    · exact (written key member).symm
    · have others : ∀ key' ∈ done, fileName key ≠ fileName key' := fun key' member' same =>
        member ((fileName_inj length (twenty key' member')).1 same ▸ member')
      refine (settled.saved key length fun known => ?_).trans (writeAll_other others).symm
      exact (List.mem_append.1 ((listed key).2 known)).elim member unlisted

theorem next {state : DiskCache × φ} (settled : Settled state.1 (held state.2)) (use : Use held) :
    Settled (use.next state).1 (held (use.next state).2) := by
  cases use with
  | get original => exact settled
  | put original made => exact settled.put original made
  | save saving => exact (settled.save saving).1

theorem behind {state : DiskCache × φ} (settled : Settled state.1 (held state.2))
    (uses : List (Use held)) :
    Settled (behind uses state).1 (held (DiskCache.behind uses state).2) := by
  induction uses generalizing state with
  | nil => exact settled
  | cons use uses ih => exact ih (settled.next use)

/-- A new cache that takes over files of entries. -/
theorem of_loadWith {names : List String} (own : OnlyEntries files) (lists : Lists names files)
    (name : Identifier) (directory : String) :
    ∃ c, (new name directory).loadWith names (readIn files) = .ok c ∧ Settled c files ∧
      ∀ original, c.get? original = files (fileName (key original)) := by
  obtain ⟨c, loads, nothing, found⟩ := exists_loadWith_new own lists name directory
  refine ⟨c, loads, ⟨own, fun key there => ?_, ?_, fun key twenty _ => ?_⟩, fun original => ?_⟩
  · by_contra other
    rw [found, if_neg other] at there
    cases there
  · rw [nothing]
    nofun
  · rw [found, if_pos twenty]
  · rw [get?, found, if_pos (length_key original)]

/-- Behind a save that succeeds, a new cache finds for all bytes what this one does. -/
theorem exists_reopened {c c' : DiskCache} {storage storage' : φ}
    (settled : Settled c (held storage)) {saving : Saving held}
    (saves : saving.run c storage = ((.ok (), c'), storage')) {names : List String}
    (lists : Lists names (held storage')) (name : Identifier) (directory : String) :
    ∃ reopened, (new name directory).loadWith names (readIn (held storage')) = .ok reopened ∧
      ∀ original, reopened.get? original = c'.get? original := by
  obtain ⟨settled', -, nothing⟩ := settled.save saving
  rw [saves] at settled' nothing
  obtain ⟨reopened, loads, -, found⟩ := of_loadWith settled'.onlyEntries lists name directory
  refine ⟨reopened, loads, fun original => (found original).trans ?_⟩
  exact (settled'.saved _ (length_key original) (by rw [nothing rfl]; nofun)).symm

end Settled

/-- What is saved into a directory is loaded from it. -/
theorem exists_load_of_save {c c' : DiskCache} {t t' : FileTree}
    (settled : Settled c (filesIn (Path.components c.directory) t)) (named : c.directory ≠ "")
    (saves : c.save t = ((.ok (), c'), t')) (there : t'.isDirectory (Path.components c.directory))
    (files : ∀ name, t'.get? (Path.components c.directory ++ [name]) ≠ some .directory)
    (name : Identifier) : ∃ reopened, (new name c.directory).load t' = .ok reopened ∧
      ∀ original, reopened.get? original = c'.get? original := by
  rw [save_eq] at saves
  obtain ⟨reopened, loads, same⟩ := settled.exists_reopened saves (lists_names files) name c.directory
  exact ⟨reopened, (load_eq (new name c.directory) t' named there).trans loads, same⟩

/-! ### Runs -/

/-- What is put for some bytes is only put for the very bytes. -/
def NoCollision (original : Bytes) (uses : List (Use held)) : Prop :=
  ∀ other made, .put other made ∈ uses → key other = key original → other = original

theorem get?_next {state : DiskCache × φ} (settled : Settled state.1 (held state.2))
    {use : Use held} {original : Bytes} (distinct : NoCollision original [use]) :
    (use.next state).1.get? original = (use.made? original).or (state.1.get? original) := by
  cases use with
  | get other => rfl
  | put other made =>
    refine (get?_put state.1 other made original).trans ?_
    by_cases same : other = original
    · simp [Use.made?, same]
    · have digests : key original ≠ key other := fun equal =>
        same (distinct other made List.mem_cons_self equal.symm)
      simp [Use.made?, same, digests]
  | save saving =>
    show (saving.run state.1 state.2).1.2.get? original = _
    rw [get?, (settled.save saving).2.1]
    rfl

/-- What is found is what was put last, or what was found before. -/
theorem get?_behind {state : DiskCache × φ} (settled : Settled state.1 (held state.2))
    {uses : List (Use held)} {original : Bytes} (distinct : NoCollision original uses) :
    (behind uses state).1.get? original =
      (lastPut original uses).or (state.1.get? original) := by
  induction uses generalizing state with
  | nil => rfl
  | cons use uses ih =>
    have first : NoCollision original [use] := fun other made member =>
      distinct other made (List.mem_singleton.1 member ▸ List.mem_cons_self)
    have others : NoCollision original uses := fun other made member =>
      distinct other made (List.mem_cons_of_mem _ member)
    refine (ih (settled.next use) others).trans ?_
    rw [get?_next settled first, lastPut_cons, Option.or_assoc]

/-- **Nothing is lost.**  Where there are only files of entries, a new cache takes them over.  In any
run from there, what is found for some bytes is what was put last for them in the run, and otherwise
what the file of their digest held at the start; each entry is listed as unsaved or on disk as it is
in memory; and behind a save that succeeds another new cache finds for all bytes what this one
does. -/
theorem nothing_lost {storage : φ} {names : List String} (own : OnlyEntries (held storage))
    (lists : Lists names (held storage)) (name : Identifier) (directory : String) :
    ∃ c, (new name directory).loadWith names (readIn (held storage)) = .ok c ∧
      ∀ uses : List (Use held),
        (∀ original, NoCollision original uses → (behind uses (c, storage)).1.get? original =
          (lastPut original uses).or (held storage (fileName (key original)))) ∧
        (∀ key value, (behind uses (c, storage)).1.entries.lookup key = some value →
          key ∈ (behind uses (c, storage)).1.unsaved ∨
            held (behind uses (c, storage)).2 (fileName key) = some value) ∧
        ∀ (saving : Saving held) c' storage',
          saving.run (behind uses (c, storage)).1 (behind uses (c, storage)).2
            = ((.ok (), c'), storage') →
          ∀ names' name', Lists names' (held storage') → ∃ reopened,
            (new name' directory).loadWith names' (readIn (held storage')) = .ok reopened ∧
              ∀ original, reopened.get? original = c'.get? original := by
  obtain ⟨c, loads, fresh, found⟩ := Settled.of_loadWith own lists name directory
  have start : Settled (c, storage).1 (held (c, storage).2) := fresh
  refine ⟨c, loads, fun uses => ?_⟩
  have settled := start.behind uses
  refine ⟨fun original distinct => ?_, fun key value entry => ?_, fun saving c' storage' saves names'
    name' lists' => settled.exists_reopened saves lists' name' directory⟩
  · rw [get?_behind start distinct, found]
  · refine or_iff_not_imp_left.2 fun unlisted => ?_
    rw [← settled.saved key (settled.twenty key (entry ▸ rfl)) unlisted, entry]

/-- A directory with the file of one entry, in which another one is saved. -/
theorem nothing_lost_beside_another :
    let directory := Path.components "cache"
    let start := (FileTree.empty.set directory .directory).set
      (directory ++ [fileName (key [1])]) (.file [7])
    OnlyEntries (filesIn directory start) ∧
      Lists [fileName (key [1])] (filesIn directory start) ∧
      ∃ c, (new defaultName "cache").loadWith [fileName (key [1])] (readIn (filesIn directory start))
          = .ok c ∧
        (behind [.put [2] [3], .save (onDisk "cache")] (c, start)).1.get? [1] = some [7] ∧
        (behind [.put [2] [3], .save (onDisk "cache")] (c, start)).1.get? [2] = some [3] := by
  intro directory start
  have nothing : filesIn directory (FileTree.empty.set directory .directory) = fun _ => none := by
    funext name
    have below : directory ++ [name] ≠ directory := by simp
    unfold filesIn
    rw [FileTree.get?_set _ _ (by decide), if_neg below]
    rfl
  have files : filesIn directory start =
      Function.update (fun _ => none) (fileName (key [1])) (some [7]) := by
    rw [filesIn_set, nothing]
  have own : OnlyEntries (filesIn directory start) := fun name there => by
    by_cases same : name = fileName (key [1])
    · exact ⟨_, length_key _, same⟩
    · simp [files, same] at there
  have lists : Lists [fileName (key [1])] (filesIn directory start) := fun name => by
    rw [files]
    by_cases same : name = fileName (key [1]) <;> simp [same]
  obtain ⟨c, loads, runs⟩ := nothing_lost own lists defaultName "cache"
  let uses : List (Use (filesIn directory)) := [.put [2] [3], .save (onDisk "cache")]
  obtain ⟨found, -, -⟩ := runs uses
  have distinct : key [2] ≠ key [1] := by decide +kernel
  refine ⟨own, lists, c, loads, ?_, ?_⟩
  · have before : lastPut [1] uses = none := rfl
    rw [found [1] fun other made member same => ?_, before, Option.none_or, files]
    · exact Function.update_self _ _ _
    · obtain ⟨rfl, rfl⟩ : other = [2] ∧ made = [3] := by simpa [uses] using member
      exact absurd same distinct
  · rw [found [2] fun other made member same => ?_]
    · rfl
    · exact (by simpa [uses] using member : other = [2] ∧ made = [3]).1

end ClassInstrument.DiskCache
