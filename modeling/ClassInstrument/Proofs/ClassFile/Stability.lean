import ClassInstrument.Proofs.ClassFile.Written

/-!
# Indices stay good

Attributes that are kept as bytes refer to the constant pool and to the bootstrap methods of the
class they were read with.  Whatever else is edited, what is written has all these constants at
their old indices, and the bytes of the attributes as they were.

* `Header.decode_encode` — a header is read back with the slots of its pool;
* `ClassFile.wellFormed_of_decode` — the constants of a class that was read are in order;
* `ClassFile.Encoded`, `ClassFile.encoded_of_encode` — the parts of the bytes that a class is
  written to;
* `ClassFile.Carries` — what a class file shares with the class and the constants it was made of;
* `ClassFile.carries_of_encode` — every class that is written;
* `ClassFile.small` — a small class that is read and written;
* `ClassFile.indices_stay_good` — **the same, between two class files**: the one that a class was
  read from and the one that it is written to after any edit.
-/

namespace ClassInstrument

open Decoder

/-! ### Headers -/

namespace Header

/-- **A header is read back**, with the slots of its pool. -/
theorem decode_encode {h : Header} (wf : h.pool.WellFormed) (old : oldestMajor ≤ h.major)
    (new : h.major ≤ newestMajor) {bytes : Bytes} (encoded : h.encode = .ok bytes) :
    ∃ pool, pool.WellFormed ∧ pool.slots = h.pool.slots
      ∧ decode bytes = .ok ⟨h.minor, h.major, pool, h.body⟩ := by
  obtain ⟨poolBytes, hpool, encoded⟩ := Traverse.bind_eq_ok_iff.1 encoded
  cases encoded
  obtain ⟨pool, wf', slots, reads⟩ := Pool.reads_encode wf hpool
  refine ⟨pool, wf', slots, ?_⟩
  have supported : ¬(h.major < oldestMajor || newestMajor < h.major) = true := by
    simp only [Bool.or_eq_true, decide_eq_true_eq, not_or, UInt16.not_lt]
    exact ⟨old, new⟩
  have same : ¬(magic != magic) = true := by decide
  unfold decode decoder onBytes Cursor.start
  simp only [List.append_assoc]
  rw [bind_of_ok (Reads.word magic _ _), if_neg same, bind_of_ok (Reads.word h.minor _ _),
    bind_of_ok (Reads.word h.major _ _), if_neg supported, bind_of_ok (reads _ _)]

/-- A header is written by the slots of its pool. -/
theorem encode_congr {minor major : UInt16} {p q : Pool} {body : Bytes}
    (slots : p.slots = q.slots) :
    encode ⟨minor, major, p, body⟩ = encode ⟨minor, major, q, body⟩ := by
  have pools : p.encode = q.encode := by
    unfold Pool.encode Pool.size
    rw [slots]
  unfold encode
  dsimp only
  rw [pools]

end Header

/-! ### Constants of a class that was read -/

namespace ClassFile

/-- A pool behind a header was read from its bytes. -/
theorem wellFormed_of_header {bytes : Bytes} {h : Header} (read : Header.decode bytes = .ok h) :
    h.pool.WellFormed := by
  unfold Header.decode onBytes at read
  split at read
  · next value rest decoded =>
    cases read
    obtain ⟨found, c₁, -, decoded⟩ := Decoder.bind_eq_ok_iff.1 decoded
    split at decoded
    · cases decoded
    · obtain ⟨minor, c₂, -, decoded⟩ := Decoder.bind_eq_ok_iff.1 decoded
      obtain ⟨major, c₃, -, decoded⟩ := Decoder.bind_eq_ok_iff.1 decoded
      split at decoded
      · cases decoded
      · obtain ⟨pool, c₄, hpool, decoded⟩ := Decoder.bind_eq_ok_iff.1 decoded
        cases decoded
        exact Pool.wellFormed_of_decode hpool
  · cases read

/-- A table of bootstrap methods is in order after each attribute. -/
theorem wellFormed_of_attributes {pool : Pool} {options : ReadOptions}
    {attributes : List Attribute} {s r : ClassAttributes} (wf : s.bootstrap.WellFormed)
    (h : attributes.foldlM (classAttribute pool options) s = .ok r) : r.bootstrap.WellFormed := by
  refine Traverse.foldlM_of_step (P := fun s => s.bootstrap.WellFormed) wf ?_ h
  intro s a _ s' wf step
  unfold classAttribute at step
  split at step
  · obtain ⟨table, hbody, step⟩ := Traverse.bind_eq_ok_iff.1 step
    cases step
    unfold onBytes at hbody
    split at hbody
    · next value rest decoded =>
      cases hbody
      exact BootstrapTable.wellFormed_of_decode decoded
    · cases hbody
  · obtain ⟨annotations, -, step⟩ := Traverse.bind_eq_ok_iff.1 step
    cases step
    exact wf
  · cases step
    exact wf

/-- **The constants of a class that was read are in order**, and its pool is that of its header. -/
theorem wellFormed_of_decode {options : ReadOptions} {bytes : Bytes} {c : ClassFile}
    (h : decode options bytes = .ok c) :
    c.constants.WellFormed
      ∧ ∃ header, Header.decode bytes = .ok header ∧ header.pool = c.constants.pool := by
  obtain ⟨header, s, decoded, -, made⟩ := ClassSkeleton.exists_of_decode h
  obtain ⟨read, attributes, made⟩ := Traverse.bind_eq_ok_iff.1 made
  obtain ⟨methods, -, made⟩ := Traverse.bind_eq_ok_iff.1 made
  cases made
  exact ⟨⟨wellFormed_of_header decoded,
    wellFormed_of_attributes BootstrapTable.WellFormed.empty attributes⟩, header, decoded, rfl⟩

/-! ### Classes that are written -/

/-- What is known of the bytes that a class is written to: its tables only grew, the header holds
the slots of them, and behind the header stand the parts of the class, around those attributes that
hold the bootstrap methods of the tables. -/
structure Encoded (c : ClassFile) (hierarchy : Hierarchy) (options : EncodeOptions) (bytes : Bytes)
    (tables : ConstantTables) (header : Header) (s : ClassSkeleton) (bootstrap : List Attribute) :
    Prop where
  body : c.encodeBody hierarchy options c.constants = .ok header.body tables
  wellFormed : tables.WellFormed
  grown : c.constants ≤ tables
  minor : header.minor = c.minor
  major : header.major = c.major
  pool : header.pool.WellFormed
  slots : header.pool.slots = tables.pool.slots
  decoded : Header.decode bytes = .ok header
  methods : BootstrapWritten tables.bootstrap bootstrap
  parts : Reads (ClassSkeleton.decoder header.pool) header.body s
  wrote : ∀ table : BootstrapTable, table.methods = tables.bootstrap.methods →
    c.Wrote hierarchy options ⟨header.pool, table⟩ s bootstrap

theorem encoded_of_encode {c : ClassFile} (wf : c.constants.WellFormed)
    (old : Header.oldestMajor ≤ c.major) (new : c.major ≤ Header.newestMajor)
    {hierarchy : Hierarchy} {options : EncodeOptions} {bytes : Bytes}
    (h : c.encode hierarchy options = .ok bytes) :
    ∃ tables header s bootstrap, c.Encoded hierarchy options bytes tables header s bootstrap := by
  unfold encode at h
  split at h
  · next body tables encoded =>
    obtain ⟨wf', grown, bootstrap, written, later⟩ := c.encodeBody_spec hierarchy options wf encoded
    obtain ⟨pool, wfPool, slots, decoded⟩ :=
      Header.decode_encode (h := ⟨c.minor, c.major, tables.pool, body⟩) wf'.pool old new h
    have above : ∀ table : BootstrapTable, table.methods = tables.bootstrap.methods →
        tables ≤ ⟨pool, table⟩ := fun table methods =>
      ⟨slots.symm ▸ List.prefix_refl _, methods.symm ▸ List.prefix_refl _⟩
    obtain ⟨s, reads, -⟩ := later _ (above tables.bootstrap rfl)
    refine ⟨tables, ⟨c.minor, c.major, pool, body⟩, s, bootstrap, encoded, wf', grown, rfl, rfl,
      wfPool, slots, decoded, written, reads, fun table methods => ?_⟩
    obtain ⟨s', reads', wrote⟩ := later _ (above table methods)
    obtain rfl : s = s' := Except.ok.inj (reads.onBytes.symm.trans reads'.onBytes)
    exact wrote
  · cases h

/-- The bytes are read as their parts say. -/
theorem Encoded.reading {c : ClassFile} {hierarchy : Hierarchy} {options : EncodeOptions}
    {bytes : Bytes} {tables : ConstantTables} {header : Header} {s : ClassSkeleton}
    {bootstrap : List Attribute} (h : c.Encoded hierarchy options bytes tables header s bootstrap)
    (readOptions : ReadOptions) :
    decode readOptions bytes = s.interpret readOptions c.minor c.major header.pool := by
  unfold decode
  rw [h.decoded, ← h.minor, ← h.major]
  exact ClassSkeleton.onBytes_bodyDecoder h.parts

/-! ### What a class file shares with its class -/

/-- What a class file shares with the class and the constants that it was made of: it starts with
the same constants, and holds the attributes that were kept as they were. -/
structure Carries (c : ClassFile) (original : ConstantTables) (bytes : Bytes) (header : Header)
    (s : ClassSkeleton) : Prop where
  decoded : Header.decode bytes = .ok header
  /-- Every original slot is where it was, and everything else stands behind them. -/
  slots : original.pool.slots.toList <+: header.pool.slots.toList
  parts : (ClassSkeleton.decoder header.pool).onBytes header.body = .ok s
  /-- A reader makes of the bytes what it makes of the parts. -/
  reading : ∀ options, decode options bytes = s.interpret options c.minor c.major header.pool
  fields : s.fields = c.fields
  methods : List.Forall₂ (fun m member => member.name = m.name ∧ member.desc = m.desc
    ∧ m.attributes <:+ member.attributes) c.methods s.members
  attributes : c.attributes <:+: s.attributes
  /-- The last attribute holds the original bootstrap methods where they were. -/
  bootstrap : original.bootstrap.isEmpty = false → ∃ front body table,
    s.attributes = front ++ [⟨BootstrapTable.attributeName, body⟩]
      ∧ BootstrapTable.decode.onBytes body = .ok table
      ∧ original.bootstrap.methods.toList <+: table.methods.toList
  /-- So does the table of whatever class is read from the bytes. -/
  table : ∀ options d, decode options bytes = .ok d →
    original.bootstrap.methods.toList <+: d.constants.bootstrap.methods.toList

/-- The last table of bootstrap methods is the one that counts. -/
theorem bootstrap_of_interpret {options : ReadOptions} {minor major : UInt16} {pool : Pool}
    {s : ClassSkeleton} {front : List Attribute} {body : Bytes} {table : BootstrapTable}
    (last : s.attributes = front ++ [⟨BootstrapTable.attributeName, body⟩])
    (decoded : BootstrapTable.decode.onBytes body = .ok table) {d : ClassFile}
    (h : s.interpret options minor major pool = .ok d) : d.constants.bootstrap = table := by
  obtain ⟨read, hread, h⟩ := Traverse.bind_eq_ok_iff.1 h
  obtain ⟨methods, -, h⟩ := Traverse.bind_eq_ok_iff.1 h
  cases h
  rw [last, List.foldlM_append] at hread
  obtain ⟨before, -, hread⟩ := Traverse.bind_eq_ok_iff.1 hread
  rw [List.foldlM_cons] at hread
  obtain ⟨after, hstep, hread⟩ := Traverse.bind_eq_ok_iff.1 hread
  cases hread
  have step : classAttribute pool options before ⟨BootstrapTable.attributeName, body⟩
      = (BootstrapTable.decode.onBytes body >>= fun bootstrap => .ok { before with bootstrap }) :=
    rfl
  rw [step, decoded] at hstep
  cases hstep
  rfl

theorem isEmpty_of_grown {t t' : BootstrapTable} (h : t.methods.toList <+: t'.methods.toList)
    (some : t.isEmpty = false) : t'.isEmpty = false := by
  cases none : t'.isEmpty with
  | false => rfl
  | true =>
    have nil : t'.methods.toList = [] := by
      rw [Array.isEmpty_iff.1 none]
    rw [nil, List.prefix_nil] at h
    have empty : t.methods = #[] := Array.toList_inj.1 h
    rw [BootstrapTable.isEmpty, empty] at some
    cases some

/-- **Every class that is written** carries its constants and its attributes. -/
theorem carries_of_encode {c : ClassFile} (wf : c.constants.WellFormed)
    (old : Header.oldestMajor ≤ c.major) (new : c.major ≤ Header.newestMajor)
    {hierarchy : Hierarchy} {options : EncodeOptions} {bytes : Bytes}
    (h : c.encode hierarchy options = .ok bytes) :
    ∃ header s, c.Carries c.constants bytes header s := by
  obtain ⟨tables, header, s, bootstrap, encoded⟩ := encoded_of_encode wf old new h
  have wrote := encoded.wrote tables.bootstrap rfl
  obtain ⟨visible, invisible, attributes, -, -⟩ := wrote.attributes
  have last : c.constants.bootstrap.isEmpty = false → ∃ front body table,
      s.attributes = front ++ [⟨BootstrapTable.attributeName, body⟩]
        ∧ BootstrapTable.decode.onBytes body = .ok table
        ∧ c.constants.bootstrap.methods.toList <+: table.methods.toList := by
    intro some
    rcases encoded.methods with ⟨none, -⟩ | ⟨body, encodedTable, rfl⟩
    · rw [isEmpty_of_grown encoded.grown.2 some] at none
      cases none
    · obtain ⟨table, -, methods, readsTable⟩ :=
        BootstrapTable.reads_encode encoded.wellFormed.bootstrap encodedTable
      refine ⟨_, body, table, attributes, readsTable.onBytes, ?_⟩
      rw [methods]
      exact encoded.grown.2
  refine ⟨header, s, encoded.decoded, ?_, encoded.parts.onBytes, encoded.reading, wrote.fields, ?_,
    ?_, last, ?_⟩
  · rw [encoded.slots]
    exact encoded.grown.1
  · refine wrote.members.imp fun m member parts => ⟨parts.name, parts.desc, ?_⟩
    obtain ⟨code, shown, hidden, all, -⟩ := parts.attributes
    rw [all]
    exact List.suffix_append ..
  · rw [attributes]
    exact List.infix_append ..
  · intro options d hd
    cases some : c.constants.bootstrap.isEmpty with
    | true =>
      rw [Array.isEmpty_iff.1 some]
      exact List.nil_prefix
    | false =>
      obtain ⟨front, body, table, attributes, readTable, kept⟩ := last some
      rw [encoded.reading options] at hd
      rw [bootstrap_of_interpret attributes readTable hd]
      exact kept

/-- What is written is the body behind the constants that it ended with. -/
theorem encode_of_body {c : ClassFile} {hierarchy : Hierarchy} {options : EncodeOptions} {body : Bytes}
    {tables : ConstantTables} (h : c.encodeBody hierarchy options c.constants = .ok body tables) :
    c.encode hierarchy options = Header.encode ⟨c.minor, c.major, tables.pool, body⟩ := by
  unfold ClassFile.encode
  rw [h]

/-! ### A small class -/

/-- The attribute for bootstrap methods, if there are any. -/
theorem bootstrapAttribute_of_encode {t : ConstantTables} (some : t.bootstrap.isEmpty = false)
    {body : Bytes} (encoded : t.bootstrap.encode = .ok body) :
    bootstrapAttribute t = .ok [⟨BootstrapTable.attributeName, body⟩] t := by
  refine (Builder.bind_of_ok (m := get) rfl).trans ?_
  rw [some, if_neg Bool.false_ne_true, encoded]
  rfl

/-- A small class file, with an attribute that is kept and a bootstrap method.  Its constants would
do for a method with a body and all its tables. -/
def smallHeader : Header where
  minor := 0
  major := 52
  pool := .ofEntries [.utf8 "A", .classRef 1, .utf8 "BootstrapMethods", .utf8 "X", .utf8 "m",
    .utf8 "()V", .utf8 "Code", .utf8 "LineNumberTable", .utf8 "LocalVariableTable", .utf8 "I",
    .utf8 "StackMapTable"]
  body := [0, 0x21, 0, 2, 0, 0, 0, 0, 0, 0, 0, 0, 0, 2,
    0, 4, 0, 0, 0, 3, 1, 2, 3, 0, 3, 0, 0, 0, 6, 0, 1, 0, 2, 0, 0]

/-- The class in it, its constants being in a given pool. -/
def small (pool : Pool) : ClassFile where
  minor := 0
  major := 52
  access := 0x21
  name := "A"
  superName := none
  interfaces := []
  fields := []
  methods := []
  annotations := .empty
  attributes := [⟨"X", [1, 2, 3]⟩]
  constants := ⟨pool, BootstrapTable.push .empty ⟨2, []⟩⟩

/-- The class behind a header whose constants are known, however they are looked up. -/
theorem decode_of_header {options : ReadOptions} {bytes body : Bytes} {minor major : UInt16}
    {pool : Pool} {entries : Array Entry} {made : Pool → ClassFile}
    (decoded : Header.decode bytes = .ok ⟨minor, major, pool, body⟩) (slots : pool.slots = entries)
    (h : ∀ lookup, (bodyDecoder options minor major ⟨entries, lookup⟩).onBytes body
      = .ok (made ⟨entries, lookup⟩)) : decode options bytes = .ok (made pool) := by
  unfold decode
  rw [decoded]
  obtain ⟨found, lookup⟩ := pool
  dsimp only at slots
  subst slots
  exact h lookup

/-- A class file with the constants of the small one is read as its body says. -/
theorem decode_smallPool (options : ReadOptions) (made : Pool → ClassFile) (body : Bytes)
    (h : ∀ lookup, (bodyDecoder options 0 52 ⟨smallHeader.pool.slots, lookup⟩).onBytes body
      = .ok (made ⟨smallHeader.pool.slots, lookup⟩)) :
    ∃ bytes pool, Header.encode { smallHeader with body } = .ok bytes
      ∧ pool.slots = smallHeader.pool.slots ∧ Header.decode bytes = .ok ⟨0, 52, pool, body⟩
      ∧ decode options bytes = .ok (made pool) := by
  obtain ⟨bytes, encoded⟩ : ∃ bytes, Header.encode { smallHeader with body } = .ok bytes := ⟨_, rfl⟩
  have wf : smallHeader.pool.WellFormed :=
    Pool.WellFormed.empty.foldl_push (by decide) (by decide)
  obtain ⟨pool, -, slots, decoded⟩ := Header.decode_encode (h := { smallHeader with body }) wf
    (show (45 : UInt16) ≤ 52 by decide) (show (52 : UInt16) ≤ 69 by decide) encoded
  exact ⟨bytes, pool, encoded, slots, decoded, decode_of_header decoded slots h⟩

/-- The small class file is read. -/
theorem decode_small : ∃ bytes pool, pool.slots = smallHeader.pool.slots
    ∧ decode .all bytes = .ok (small pool) := by
  obtain ⟨bytes, pool, -, slots, -, read⟩ :=
    decode_smallPool .all small smallHeader.body fun _ => rfl
  exact ⟨bytes, pool, slots, read⟩

section Small

variable {pool : Pool} (slots : pool.slots = smallHeader.pool.slots)
  (wf : (small pool).constants.WellFormed)

include slots wf in
/-- The texts of the small class are there already. -/
theorem addUtf8_small {text : String} {i : Nat}
    (known : smallHeader.pool.slots.toList.idxOf? (.utf8 text) = some i) :
    Builder.addUtf8 text (small pool).constants = .ok (UInt16.ofNat i) (small pool).constants := by
  refine Builder.add_of_known wf (by simp) ?_
  rw [← known, ← slots]
  rfl

include slots wf in
theorem addClass_small :
    Builder.addClass "A" (small pool).constants = .ok 2 (small pool).constants := by
  refine (Builder.bind_of_ok (addUtf8_small slots wf (i := 1) (by decide))).trans ?_
  refine Builder.add_of_known wf (by simp) (i := 2) ?_
  rw [show (small pool).constants.pool.slots = _ from slots]
  decide

include slots wf in
/-- The attributes of the small class are written. -/
theorem encodeAttributes_small : Attribute.encodeAll
    [⟨"X", [1, 2, 3]⟩, ⟨"BootstrapMethods", [0, 1, 0, 2, 0, 0]⟩] (small pool).constants
      = .ok (smallHeader.body.drop 12) (small pool).constants := by
  refine (Attribute.encodeAll_of_known (fun name => if name = "X" then 4 else 3)
    (by decide) ?_ (by simp)).trans rfl
  simp only [List.forall_mem_cons]
  exact ⟨addUtf8_small slots wf (by decide), addUtf8_small slots wf (by decide),
    List.forall_mem_nil _⟩

theorem bootstrapAttribute_small : bootstrapAttribute (small pool).constants
    = .ok [⟨"BootstrapMethods", [0, 1, 0, 2, 0, 0]⟩] (small pool).constants :=
  bootstrapAttribute_of_encode (t := (small pool).constants) rfl
    (show (BootstrapTable.push .empty ⟨2, []⟩).encode = .ok [0, 1, 0, 2, 0, 0] from rfl)

include slots in
/-- The pool of the small class can be written. -/
theorem encodeHeader_small (body : Bytes) :
    ∃ bytes, Header.encode ⟨0, 52, (small pool).constants.pool, body⟩ = .ok bytes := by
  obtain ⟨entries, lookup⟩ := pool
  dsimp only at slots
  subst slots
  exact ⟨_, rfl⟩

include slots wf in
/-- The small class is written, with a superclass that is there already or with none. -/
theorem encodeBody_small {superName : Option String} {i : UInt16}
    (known : Builder.addOptionalClass superName (small pool).constants
      = .ok i (small pool).constants) :
    encodeBody { small pool with superName } .flat .none (small pool).constants
      = .ok ([0, 0x21, 0, 2] ++ Word.encode i ++ [0, 0, 0, 0, 0, 0] ++ smallHeader.body.drop 12)
        (small pool).constants := by
  refine (Builder.bind_of_ok (addClass_small slots wf)).trans ((Builder.bind_of_ok known).trans ?_)
  refine (Builder.bind_of_ok (m := Builder.count "interfaces" 0) rfl).trans ?_
  refine (Builder.bind_of_ok (m := pure []) rfl).trans ?_
  refine (Builder.bind_of_ok (m := Builder.count "fields" 0) rfl).trans ?_
  refine (Builder.bind_of_ok (m := pure []) rfl).trans ?_
  refine (Builder.bind_of_ok (m := Builder.count "methods" 0) rfl).trans ?_
  refine (Builder.bind_of_ok (m := pure []) rfl).trans ?_
  refine (Builder.bind_of_ok (m := annotationAttributes .empty) rfl).trans ?_
  refine (Builder.bind_of_ok bootstrapAttribute_small).trans ?_
  refine (Builder.bind_of_ok (m := Attribute.encodeAll _) (encodeAttributes_small slots wf)).trans
    ?_
  -- closed, so that its bytes can be computed
  have access : (small pool).access = 0x21 := rfl
  simp only [List.append_assoc, access]
  rfl

include slots wf in
/-- The small class is written with another superclass. -/
theorem encode_small :
    ∃ bytes, encode { small pool with superName := some "A" } .flat .none = .ok bytes := by
  have known : Builder.addOptionalClass (some "A") (small pool).constants
      = .ok 2 (small pool).constants := addClass_small slots wf
  have written := encodeBody_small slots wf known
  unfold encode
  rw [show ClassFile.constants _ = (small pool).constants from rfl, written]
  exact encodeHeader_small slots _

end Small

/-! ### From one class file to the next -/

/-- **Indices stay good from one class file to the next.**  A class is read, anything but its
constants is edited, and it is written with a supported version: then the constants of the first
class file stand at the same indices in the second one, and every attribute that was kept is in it
with its bytes unchanged. -/
theorem indices_stay_good {readOptions : ReadOptions} {bytes : Bytes} {c : ClassFile}
    (read : decode readOptions bytes = .ok c) {edited : ClassFile}
    (same : edited.constants = c.constants) (old : Header.oldestMajor ≤ edited.major)
    (new : edited.major ≤ Header.newestMajor) {hierarchy : Hierarchy} {options : EncodeOptions}
    {bytes' : Bytes} (written : edited.encode hierarchy options = .ok bytes') :
    ∃ before after s, Header.decode bytes = .ok before
      ∧ before.pool.slots.toList <+: after.pool.slots.toList
      ∧ edited.Carries c.constants bytes' after s := by
  obtain ⟨wf, before, decoded, pool⟩ := wellFormed_of_decode read
  rw [← same] at wf
  obtain ⟨after, s, carries⟩ := carries_of_encode wf old new written
  rw [same] at carries
  refine ⟨before, after, s, decoded, ?_, carries⟩
  rw [pool]
  exact carries.slots

/-- The small class keeps its indices when it gets another superclass. -/
theorem indices_of_small : ∃ bytes c edited bytes', decode .all bytes = .ok c
    ∧ c.constants.bootstrap.isEmpty = false ∧ c.attributes.length = 1
    ∧ ClassFile.superName edited ≠ c.superName ∧ edited.constants = c.constants
    ∧ edited.encode .flat .none = .ok bytes'
    ∧ ∃ before after s, Header.decode bytes = .ok before
      ∧ before.pool.slots.toList <+: after.pool.slots.toList
      ∧ edited.Carries c.constants bytes' after s := by
  obtain ⟨bytes, pool, slots, read⟩ := decode_small
  obtain ⟨bytes', written⟩ := encode_small slots (wellFormed_of_decode read).1
  refine ⟨bytes, small pool, { small pool with superName := some "A" }, bytes', read, rfl, rfl,
    fun h => (nomatch h), rfl, written, ?_⟩
  exact indices_stay_good read
    (show ClassFile.constants { small pool with superName := some "A" } = _ from rfl)
    (by show (45 : UInt16) ≤ 52; decide)
    (by show (52 : UInt16) ≤ 69; decide) written

end ClassFile

end ClassInstrument
