import ClassInstrument.Proofs.Bytes.Traverse
import ClassInstrument.Proofs.Cache.FileName

/-!
# The entries of a cache on disk

Entries are told apart by their keys, and the last one that is put or taken over for a key is the
one that is found.

* `DiskCache.get?_put` — an entry is found under the digest of its bytes;
* `DiskCache.lookup_loadWith` — what is found behind taking over files: for each key the last file
  that is taken for it, and otherwise what was there;
* `DiskCache.loadWith_perm_iff` — **it does not matter in which order files are listed** exactly if
  no two of them are taken for one key;
* `DiskCache.own_files_taken` — which files are taken over, and that their order does not matter
  where names are plain.
-/

namespace ClassInstrument.DiskCache

/-! ### Adding -/

theorem lookup_cons_ite (first value other : Bytes) (entries : List (Bytes × Bytes)) :
    List.lookup other ((first, value) :: entries) =
      if other = first then some value else entries.lookup other := by
  rw [List.lookup_cons]
  by_cases same : other = first
  · simp [same]
  · simp [same, beq_eq_false_iff_ne.2 same]

theorem lookup_setEntry (entries : List (Bytes × Bytes)) (k value other : Bytes) :
    (setEntry entries k value).lookup other =
      if other = k then some value else entries.lookup other := by
  rw [setEntry, lookup_cons_ite]
  split
  · rfl
  rename_i different
  induction entries with
  | nil => rfl
  | cons entry entries ih =>
    obtain ⟨first, held⟩ := entry
    by_cases replaced : first = k
    · rw [List.filter_cons_of_neg (by simp [replaced]), ih, lookup_cons_ite,
        if_neg (replaced ▸ different)]
    · rw [List.filter_cons_of_pos (by simp [replaced]), lookup_cons_ite, lookup_cons_ite, ih]

/-- An entry is found under the digest of the bytes that it was added for. -/
theorem get?_put (c : DiskCache) (original made bytes : Bytes) :
    (c.put original made).get? bytes =
      if key bytes = key original then some made else c.get? bytes :=
  lookup_setEntry c.entries (key original) made (key bytes)

/-! ### Taking over files -/

section Loading

variable {names : List String} {read : String → Except Failure Bytes} {c c' : DiskCache}
  {name : String}

/-- A file that is no entry is left alone. -/
theorem loadWith_cons_foreign (foreign : keyOfFileName? name = none) :
    c.loadWith (name :: names) read = c.loadWith names read := by
  simp [loadWith, entriesAmong, foreign]

/-- A file that is an entry takes the place of what was there, before the files behind it. -/
theorem loadWith_cons_taken {key : Bytes} (taken : keyOfFileName? name = some key) :
    c.loadWith (name :: names) read = (do
      let bytes ← read name
      { c with entries := setEntry c.entries key bytes }.loadWith names read) := by
  have among : entriesAmong (name :: names) = (key, name) :: entriesAmong names := by
    simp [entriesAmong, taken]
  unfold loadWith
  rw [among, List.mapM_cons]
  dsimp only
  cases read name with
  | error e => rfl
  | ok bytes =>
    generalize (List.mapM _ (entriesAmong names) : Except Failure (List (Bytes × Bytes))) = others
    cases others <;> rfl

/-- Taking over files succeeds if those of entries can be read. -/
theorem exists_loadWith_iff : (∃ c', c.loadWith names read = .ok c') ↔
    ∀ name ∈ names, (keyOfFileName? name).isSome → ∃ bytes, read name = .ok bytes := by
  induction names generalizing c with
  | nil => exact ⟨fun _ => nofun, fun _ => ⟨c, rfl⟩⟩
  | cons name names ih =>
    rw [List.forall_mem_cons]
    cases taken : keyOfFileName? name with
    | none => rw [loadWith_cons_foreign taken, ih]; simp
    | some key =>
      simp only [loadWith_cons_taken taken, Traverse.bind_eq_ok_iff]
      constructor
      · rintro ⟨c', bytes, here, loads⟩
        exact ⟨fun _ => ⟨bytes, here⟩, ih.1 ⟨c', loads⟩⟩
      · rintro ⟨here, others⟩
        obtain ⟨bytes, here⟩ := here rfl
        obtain ⟨c', loads⟩ := ih.2 others
        exact ⟨c', bytes, here, loads⟩

/-- Only entries change. -/
theorem loadWith_same (loads : c.loadWith names read = .ok c') :
    c' = { c with entries := c'.entries } := by
  obtain ⟨loaded, -, rest⟩ := Traverse.bind_eq_ok_iff.1 loads
  obtain rfl := Except.ok.inj rest
  rfl

/-- The last of some names that is taken for a key. -/
def lastTaken (names : List String) (key : Bytes) : Option String :=
  names.reverse.find? fun name => keyOfFileName? name = some key

theorem lastTaken_cons (name : String) (names : List String) (key : Bytes) :
    lastTaken (name :: names) key = (lastTaken names key).or
      (if keyOfFileName? name = some key then some name else none) := by
  unfold lastTaken
  rw [List.reverse_cons, List.find?_append, List.find?_singleton]
  simp only [decide_eq_true_eq]

/-- **What is found behind taking over files**: for each key the last file that is taken for it, and
otherwise what was there. -/
theorem lookup_loadWith (loads : c.loadWith names read = .ok c') (key : Bytes) :
    c'.entries.lookup key = match lastTaken names key with
      | some name => (read name).toOption
      | none => c.entries.lookup key := by
  induction names generalizing c with
  | nil =>
    obtain rfl := Except.ok.inj loads
    rfl
  | cons name names ih =>
    rw [lastTaken_cons]
    cases taken : keyOfFileName? name with
    | none =>
      rw [ih (loadWith_cons_foreign taken ▸ loads)]
      simp
    | some first =>
      rw [loadWith_cons_taken taken] at loads
      obtain ⟨bytes, here, loads⟩ := Traverse.bind_eq_ok_iff.1 loads
      rw [ih loads, lookup_setEntry]
      cases lastTaken names key with
      | some later => rfl
      | none => by_cases own : key = first <;> simp [own, here, Except.toOption, eq_comm]

/-! ### The order of files -/

/-- No two of some names are taken for one key. -/
def NamesApart (names : List String) : Prop :=
  ∀ name ∈ names, ∀ name' ∈ names, ∀ key, keyOfFileName? name = some key →
    keyOfFileName? name' = some key → name = name'

theorem lastTaken_mem {key : Bytes} (last : lastTaken names key = some name) :
    name ∈ names ∧ keyOfFileName? name = some key :=
  ⟨List.mem_reverse.1 (List.mem_of_find?_eq_some last), by simpa using List.find?_some last⟩

theorem lastTaken_eq_some_iff (apart : NamesApart names) {key : Bytes} :
    lastTaken names key = some name ↔ name ∈ names ∧ keyOfFileName? name = some key := by
  refine ⟨lastTaken_mem, fun ⟨member, taken⟩ => ?_⟩
  have found : (lastTaken names key).isSome :=
    List.find?_isSome.2 ⟨name, List.mem_reverse.2 member, decide_eq_true taken⟩
  obtain ⟨last, found⟩ := Option.isSome_iff_exists.1 found
  obtain ⟨member', taken'⟩ := lastTaken_mem found
  rw [found, apart name member last member' key taken taken']

/-- Plain names that are taken for keys are taken for different ones. -/
theorem namesApart_of_plain
    (plain : ∀ name ∈ names, (keyOfFileName? name).isSome → IsPlain name) : NamesApart names := by
  intro name member name' member' key taken taken'
  have own := (keyOfFileName?_of_plain (plain name member (taken ▸ rfl))).1 taken
  have own' := (keyOfFileName?_of_plain (plain name' member' (taken' ▸ rfl))).1 taken'
  exact own.2.trans own'.2.symm

end Loading

/-- What is found for each key behind taking over files, if that succeeds. -/
def foundBehind (names : List String) (read : String → Except Failure Bytes) (c : DiskCache) :
    Option (Bytes → Option Bytes) :=
  (c.loadWith names read).toOption.map fun c' key => c'.entries.lookup key

section Order

variable {names names' : List String} {read : String → Except Failure Bytes} {c : DiskCache}

theorem foundBehind_eq (readable : ∀ name ∈ names, ∃ bytes, read name = .ok bytes) :
    foundBehind names read c = some fun key => match lastTaken names key with
      | some name => (read name).toOption
      | none => c.entries.lookup key := by
  obtain ⟨c', loads⟩ := exists_loadWith_iff.2 fun name member _ => readable name member
  unfold foundBehind
  rw [loads]
  exact congrArg some (funext (lookup_loadWith loads))

/-- Names that are taken for different keys may be listed in any order. -/
theorem foundBehind_perm (apart : NamesApart names) (same : names.Perm names') :
    foundBehind names read c = foundBehind names' read c := by
  have apart' : NamesApart names' := fun name member name' member' =>
    apart name (same.mem_iff.2 member) name' (same.mem_iff.2 member')
  have last : ∀ key, lastTaken names key = lastTaken names' key := fun key => by
    refine Option.ext fun name => ?_
    rw [lastTaken_eq_some_iff apart, lastTaken_eq_some_iff apart', same.mem_iff]
  have readable : (∃ c', c.loadWith names read = .ok c') ↔ ∃ c', c.loadWith names' read = .ok c' := by
    simp only [exists_loadWith_iff, same.mem_iff]
  unfold foundBehind
  cases loads : c.loadWith names read with
  | ok c₁ =>
    obtain ⟨c₂, loads'⟩ := readable.1 ⟨c₁, loads⟩
    rw [loads']
    refine congrArg some (funext fun key => ?_)
    dsimp only
    rw [lookup_loadWith loads, lookup_loadWith loads', last]
  | error e =>
    cases loads' : c.loadWith names' read with
    | error e' => rfl
    | ok c₂ =>
      obtain ⟨c₁, loads₁⟩ := readable.2 ⟨c₂, loads'⟩
      rw [loads] at loads₁
      cases loads₁

/-- **It does not matter in which order files are listed** exactly if no two of them are taken for
one key. -/
theorem loadWith_perm_iff : NamesApart names ↔ ∀ names', names.Perm names' → ∀ read c,
    foundBehind names read c = foundBehind names' read c := by
  refine ⟨fun apart _ same _ _ => foundBehind_perm apart same, fun any name member name' member'
    key taken taken' => ?_⟩
  by_contra different
  -- Files that say which of the two they are, listed so that either one is the last.
  let read : String → Except Failure Bytes := fun other => .ok (if other = name then [1] else [0])
  have readable : ∀ names : List String, ∀ other ∈ names, ∃ bytes, read other = .ok bytes :=
    fun _ _ _ => ⟨_, rfl⟩
  have last : ∀ name ∈ names, keyOfFileName? name = some key →
      (foundBehind names read default).map (· key) = some (read name).toOption := by
    intro name member taken
    have moved : names.Perm (names.erase name ++ [name]) :=
      (List.perm_cons_erase member).trans (List.perm_append_singleton name _).symm
    have final : lastTaken (names.erase name ++ [name]) key = some name := by
      simp [lastTaken, taken]
    rw [any _ moved, foundBehind_eq (readable _), Option.map_some]
    dsimp only
    rw [final]
  have both := (last name member taken).symm.trans (last name' member' taken')
  simp [read, Ne.symm different, Except.toOption] at both

end Order

/-- **Which files are taken over.**  Those whose names spell a key, in either case and with a plus
sign in the place of a zero in front of a digit; so a name is taken for the key of its file and for
nothing else exactly if it is plain or not taken at all.  The name of its file is always taken for a
key.  Where the names in a directory that are taken are plain, no two are taken for one key, and it
does not matter in which order they are listed; it matters as soon as two are taken for one key. -/
theorem own_files_taken (directory : String) (names : List String) :
    (∀ name key, keyOfFileName? name = some key ↔ key.length = keyLength ∧
      ∃ stem, name.toList = stem ++ '.' :: fileExtension ∧
        plainDigits stem = key.flatMap Hexadecimal.spelled) ∧
    (∀ name, (∀ key, keyOfFileName? name = some key ↔
        key.length = keyLength ∧ name = fileName key) ↔
      ((keyOfFileName? name).isSome → IsPlain name)) ∧
    (∀ key, (Path.components (Path.join directory (fileName key))).getLast? = some (fileName key) ∧
      (key.length = keyLength → keyOfFileName? (fileName key) = some key)) ∧
    ((∀ name ∈ names, (keyOfFileName? name).isSome → IsPlain name) → NamesApart names) ∧
    (NamesApart names ↔ ∀ names', names.Perm names' → ∀ read c,
      foundBehind names read c = foundBehind names' read c) := by
  refine ⟨fun _ _ => keyOfFileName?_eq_some_iff, taken_as_own_iff,
    fun key => ⟨?_, keyOfFileName?_fileName⟩, namesApart_of_plain, loadWith_perm_iff⟩
  rw [components_join_fileName, List.getLast?_concat]

/-- A file for notes beside that of a key. -/
theorem own_files_taken_beside_notes :
    let key : Bytes := List.replicate 20 0xab
    keyOfFileName? (fileName key) = some key ∧ NamesApart ["notes.txt", fileName key] := by
  intro key
  obtain ⟨-, -, own, apart, -⟩ := own_files_taken "cache" ["notes.txt", fileName key]
  exact ⟨(own key).2 (by decide), apart (by decide +kernel)⟩

end ClassInstrument.DiskCache
