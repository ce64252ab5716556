/-
Module: CaffeineLs.Proofs.StubCache
Purpose: The key ranges of the stub cache, what its transactions remove, and when pruning deletes a
  library that was used again since the prune looked.
Trusted boundary: a meta blob that was encoded decodes to itself
Main exports: before_key_metaKey, libraries_removed_exactly_iff, prune_deletes_no_fresh_iff
-/
import CaffeineLs.Hir.LmdbStore

namespace CaffeineLs.Hir

open Wire Bytes ByteStore

/-! ### The order of keys -/

theorem toNat_mod_size (n : UInt64) : n.toNat % 256 ^ 8 = n.toNat :=
  Nat.mod_eq_of_lt n.toNat_lt

/-- What follows the library in a key: the kind and the rest. -/
def StoreKey.suffix : StoreKey → Bytes
  | .meta_ _ => kindMeta :: bigEndian 4 0
  | .record _ idx => kindRecord :: bigEndian 4 idx.toNat
  | .sourceIndex _ hash => kindSourceIndex :: bigEndian 8 hash.toNat
  | .params _ hash => kindParams :: bigEndian 8 hash.toNat

theorem StoreKey.bytes_eq (k : StoreKey) :
    k.bytes = bigEndian 8 k.library.toNat ++ k.suffix := by
  cases k <;> rfl

theorem bigEndian_zero (width : Nat) : bigEndian width 0 = List.replicate width 0 := by
  induction width with
  | zero => rfl
  | succ width ih => simp [bigEndian, ih, List.replicate_succ]

/-- Whether a key of the cache comes before a library's position `suffix`. -/
theorem before_at (k : StoreKey) (library : LibraryId) (suffix : Bytes) :
    before k.bytes (bigEndian 8 library.toNat ++ suffix) = true ↔
      k.library.toNat < library.toNat ∨
        (k.library = library ∧ before k.suffix suffix = true) := by
  rw [k.bytes_eq, before_bigEndian, toNat_mod_size, toNat_mod_size, UInt64.toNat_inj]

/-- No key of a library comes before its first key. -/
theorem before_metaKey (k : StoreKey) (library : LibraryId) :
    before k.bytes (metaKey library) = true ↔ k.library.toNat < library.toNat := by
  have first : before k.suffix (kindMeta :: bigEndian 4 0) = false := by
    cases k <;> simp [StoreKey.suffix, before, kindMeta, kindRecord, kindSourceIndex, kindParams]
  have position := before_at k library (kindMeta :: bigEndian 4 0)
  rw [first] at position
  simpa [metaKey, key] using position

/-- The keys of a library before its hashed keys of a kind are those of the kinds below. -/
theorem before_hashedKey (k : StoreKey) (library : LibraryId) (kind : UInt8)
    (hashed : kind = kindSourceIndex ∨ kind = kindParams) :
    before k.bytes (hashedKey library kind 0) = true ↔
      k.library.toNat < library.toNat ∨
        (k.library = library ∧ ∃ low rest, k.suffix = low :: rest ∧ low < kind) := by
  have zeros (hash : UInt64) : before (bigEndian 8 hash.toNat) (bigEndian 8 0) = false := by
    rw [bigEndian_zero]
    exact before_zeros (by simp)
  have position : before k.suffix (kind :: bigEndian 8 0) = true ↔
      ∃ low rest, k.suffix = low :: rest ∧ low < kind := by
    rcases hashed with rfl | rfl <;> cases k <;>
      simp [StoreKey.suffix, before, zeros, kindMeta, kindRecord, kindSourceIndex, kindParams]
  rw [← position]
  exact before_at k library (kind :: bigEndian 8 0)

/-- The last library: no id follows it. -/
def lastLibrary : LibraryId := 0xFFFFFFFFFFFFFFFF

theorem toNat_succ {library : LibraryId} (inner : library ≠ lastLibrary) :
    (library + 1).toNat = library.toNat + 1 := by
  have differs : library.toNat ≠ 0xFFFFFFFFFFFFFFFF := by
    intro same
    apply inner
    apply UInt64.toNat_inj.mp
    exact same
  have below := library.toNat_lt
  rw [UInt64.toNat_add]
  apply Nat.mod_eq_of_lt
  simp only [UInt64.toNat_one]
  omega

/-- The range of a library holds its keys and no others; that of the last library holds none. -/
theorem inRange_library (k : StoreKey) (library : LibraryId) :
    inRange (metaKey library) (metaKey (library + 1)) k.bytes = true ↔
      k.library = library ∧ library ≠ lastLibrary := by
  have start := before_metaKey k library
  have stop := before_metaKey k (library + 1)
  unfold inRange
  rw [Bool.and_eq_true, Bool.not_eq_true', ← Bool.not_eq_true, start, stop,
    ← UInt64.toNat_inj (a := k.library)]
  by_cases last : library = lastLibrary
  · have wraps : (library + 1).toNat = 0 := by rw [last]; rfl
    constructor
    · rintro ⟨-, before⟩
      rw [wraps] at before
      exact absurd before (Nat.not_lt_zero _)
    · rintro ⟨-, inner⟩
      exact absurd last inner
  · rw [toNat_succ last]
    constructor
    · rintro ⟨notBefore, before⟩
      exact ⟨by omega, last⟩
    · rintro ⟨same, -⟩
      omega

def StoreKey.isSourceIndexOf (library : LibraryId) : StoreKey → Bool
  | .sourceIndex owner _ => owner == library
  | _ => false

/-- The range of a library's source indexes holds these and no other keys. -/
theorem inRange_sourceIndex (k : StoreKey) (library : LibraryId) :
    inRange (hashedKey library kindSourceIndex 0) (hashedKey library (kindSourceIndex + 1) 0)
        k.bytes = true ↔ k.isSourceIndexOf library = true := by
  have start := before_hashedKey k library kindSourceIndex (.inl rfl)
  have stop := before_hashedKey k library (kindSourceIndex + 1) (.inr rfl)
  unfold inRange
  rw [Bool.and_eq_true, Bool.not_eq_true', ← Bool.not_eq_true, start, stop]
  clear start stop
  cases k <;>
    simp [StoreKey.library, StoreKey.suffix, StoreKey.isSourceIndexOf, kindMeta, kindRecord,
      kindSourceIndex, kindParams]
  -- only the source indexes are left: their kind is not below itself, but below the next
  constructor
  · rintro ⟨notBelow, below | same⟩
    · omega
    · exact same
  · rintro rfl
    exact ⟨Nat.le_refl _, .inr rfl⟩

/-! ### What the transactions remove -/

/-- The key of an entry can be told from the others by its bytes. -/
theorem StoreKey.bytes_inj {k l : StoreKey} (same : k.bytes = l.bytes) : k = l := by
  have libraries : k.library = l.library := by
    apply UInt64.toNat_inj.mp
    have notBefore (k l : StoreKey) (same : k.bytes = l.bytes) :
        ¬ l.library.toNat < k.library.toNat := by
      intro less
      have order := (before_at l k.library k.suffix).mpr (.inl less)
      rw [← k.bytes_eq, same] at order
      simp at order
    have one := notBefore k l same
    have two := notBefore l k same.symm
    omega
  rw [k.bytes_eq, l.bytes_eq, libraries] at same
  have rest := List.append_cancel_left same
  have number4 (a b : UInt32) (same : bigEndian 4 a.toNat = bigEndian 4 b.toNat) : a = b := by
    have numbers := congrArg ofBigEndian same
    simp only [ofBigEndian_bigEndian] at numbers
    have belowA := a.toNat_lt
    have belowB := b.toNat_lt
    apply UInt32.toNat_inj.mp
    omega
  have number8 (a b : UInt64) (same : bigEndian 8 a.toNat = bigEndian 8 b.toNat) : a = b := by
    have numbers := congrArg ofBigEndian same
    simp only [ofBigEndian_bigEndian, toNat_mod_size] at numbers
    exact UInt64.toNat_inj.mp numbers
  cases k <;> cases l <;>
    simp only [StoreKey.suffix, StoreKey.library, kindMeta, kindRecord, kindSourceIndex,
      kindParams, List.cons.injEq] at rest libraries <;>
    simp_all
  · exact number4 _ _ rest
  · exact number8 _ _ rest
  · exact number8 _ _ rest

theorem get_deleteLibraryRange (store : ByteStore) (library : LibraryId) (k : StoreKey) :
    (deleteLibraryRange store library).1.get k.bytes =
      if k.library = library ∧ library ≠ lastLibrary then none else store.get k.bytes := by
  unfold deleteLibraryRange
  rw [get_deleteRange]
  simp only [inRange_library]

theorem get_put_key (store : ByteStore) (k other : StoreKey) (value : Bytes) :
    (store.put k.bytes value).get other.bytes =
      if other = k then some value else store.get other.bytes := by
  rw [get_put]
  by_cases same : other = k
  · rw [if_pos same, if_pos (congrArg StoreKey.bytes same)]
  · rw [if_neg same, if_neg fun bytes => same (StoreKey.bytes_inj bytes)]

/-! ### A serializer of small blobs -/

/-- A variable-length number, seven bits a byte, the lowest first. -/
def varint : Nat → Nat → Bytes
  | 0, _ => []
  | width + 1, n =>
      if n < 128 then [UInt8.ofNat n] else UInt8.ofNat (n % 128 + 128) :: varint width (n / 128)

def readVarint : Nat → Bytes → Option (Nat × Bytes)
  | width + 1, byte :: rest =>
      if byte.toNat < 128 then some (byte.toNat, rest)
      else (readVarint width rest).map fun (high, rest) => (byte.toNat - 128 + 128 * high, rest)
  | _, _ => none

theorem readVarint_varint (width n : Nat) (rest : Bytes) (fits : n < 128 ^ width)
    (some_width : 0 < width) : readVarint width (varint width n ++ rest) = some (n, rest) := by
  induction width generalizing n with
  | zero => exact absurd some_width (Nat.lt_irrefl 0)
  | succ width ih =>
      unfold varint
      by_cases small : n < 128
      · have byte : (UInt8.ofNat n).toNat = n := by
          rw [UInt8.toNat_ofNat']
          omega
        rw [if_pos small]
        simp only [List.cons_append, List.nil_append, readVarint, byte, small, if_true]
      · have wide : 0 < width := by
          apply Nat.pos_of_ne_zero
          rintro rfl
          exact small (by simpa using fits)
        have byte : (UInt8.ofNat (n % 128 + 128)).toNat = n % 128 + 128 := by
          rw [UInt8.toNat_ofNat']
          omega
        have high : n / 128 < 128 ^ width := by
          apply Nat.div_lt_of_lt_mul
          rw [Nat.pow_succ] at fits
          omega
        have more : ¬ n % 128 + 128 < 128 := by omega
        have back : n % 128 + 128 - 128 + 128 * (n / 128) = n := by omega
        rw [if_neg small]
        simp only [List.cons_append, readVarint, byte, more, if_false, ih _ high wide,
          Option.map_some, back]

/-- The serializer on meta blobs without classes and modules; it fails on all others. -/
def smallPostcard : Postcard where
  encodeMeta blob :=
    if blob.strings = [] ∧ blob.entries = [] ∧ blob.modules = [] then
      some (varint 5 blob.formatVersion.toNat ++ (0 :: 0 :: 0 :: varint 10 blob.lastAccessed.toNat))
    else none
  decodeMetaBlob bytes :=
    match readVarint 5 bytes with
    | some (version, 0 :: 0 :: 0 :: rest) =>
        match readVarint 10 rest with
        | some (stamp, []) =>
            some { formatVersion := UInt32.ofNat version, strings := [], entries := [], modules := [],
                   lastAccessed := UInt64.ofNat stamp }
        | _ => none
    | _ => none
  encodeRecord _ := none
  encodeSourceIndex _ := none
  hashStamp _ := 0

theorem smallPostcard_roundTrip (blob : MetaBlob) (bytes : Bytes)
    (encoded : smallPostcard.encodeMeta blob = some bytes) :
    smallPostcard.decodeMetaBlob bytes = some blob := by
  obtain ⟨version, strings, entries, modules, stamp⟩ := blob
  simp only [smallPostcard] at encoded
  split at encoded
  next small =>
    obtain ⟨rfl, rfl, rfl⟩ := small
    obtain rfl := Option.some.inj encoded
    have fitsVersion : version.toNat < 128 ^ 5 := Nat.lt_of_lt_of_le version.toNat_lt (by decide)
    have fitsStamp : stamp.toNat < 128 ^ 10 := Nat.lt_of_lt_of_le stamp.toNat_lt (by decide)
    have readStamp := readVarint_varint 10 stamp.toNat [] fitsStamp (by decide)
    rw [List.append_nil] at readStamp
    simp only [smallPostcard, readVarint_varint 5 version.toNat _ fitsVersion (by decide), readStamp,
      UInt32.ofNat_toNat, UInt64.ofNat_toNat]
  next => cases encoded

def smallMeta (lastAccessed : UInt64) : MetaBlob :=
  { formatVersion := cacheFormatVersion, strings := [], entries := [], modules := [],
    lastAccessed := lastAccessed }

/-! ### Reading after a transaction -/

section Transactions

variable {postcard : Postcard}

/-- What the records from `idx` on put under a key. -/
def recordEntry (postcard : Postcard) (library : LibraryId) (idx : Nat)
    (records : List (ClassOrModuleStub UInt32)) : StoreKey → Option Bytes
  | .record owner i =>
      if owner = library ∧ idx ≤ i.toNat then records[i.toNat - idx]?.bind postcard.encodeRecord
      else none
  | _ => none

theorem get_putRecords {library : LibraryId} {idx : Nat} {records : List (ClassOrModuleStub UInt32)}
    {store after : ByteStore} (ran : putRecords postcard library idx records store = some after)
    (k : StoreKey) :
    after.get k.bytes = (recordEntry postcard library idx records k).or (store.get k.bytes) := by
  induction records generalizing idx store with
  | nil =>
      obtain rfl := Option.some.inj ran
      cases k <;> simp [recordEntry]
  | cons record records ih =>
      unfold putRecords at ran
      split at ran
      next small =>
        split at ran
        · cases ran
        next payload encoded =>
          have place : (UInt32.ofNat idx).toNat = idx := by
            rw [UInt32.toNat_ofNat']
            exact Nat.mod_eq_of_lt small
          rw [ih ran]
          have put : (store.put (recordKey library (UInt32.ofNat idx)) payload).get k.bytes =
              if k = .record library (UInt32.ofNat idx) then some payload
              else store.get k.bytes := get_put_key store (.record library _) k payload
          rw [put]
          by_cases this : k = .record library (UInt32.ofNat idx)
          · subst this
            have passed : ¬ idx + 1 ≤ idx := Nat.not_succ_le_self idx
            simp [recordEntry, place, encoded, passed]
          · rw [if_neg this]
            -- another key: the record number, if the key is one of the library's, lies beyond
            cases k with
            | record owner i =>
                by_cases mine : owner = library ∧ idx ≤ i.toNat
                · have beyond : idx + 1 ≤ i.toNat := by
                    apply Nat.lt_of_le_of_ne mine.2
                    intro same
                    apply this
                    rw [mine.1, same, UInt32.ofNat_toNat]
                  have later : i.toNat - idx = i.toNat - (idx + 1) + 1 := by omega
                  have next : owner = library ∧ idx + 1 ≤ i.toNat := ⟨mine.1, beyond⟩
                  simp only [recordEntry, if_pos mine, if_pos next, later, List.getElem?_cons_succ]
                · have short : ¬ (owner = library ∧ idx + 1 ≤ i.toNat) := by
                    rintro ⟨same, beyond⟩
                    exact mine ⟨same, by omega⟩
                  simp only [recordEntry, if_neg mine, if_neg short]
            | meta_ owner => rfl
            | sourceIndex owner hash => rfl
            | params owner hash => rfl
      next => cases ran

/-- The entries that a library is written with. -/
def libraryEntries (postcard : Postcard) (blob : MetaBlob) (records : List (ClassOrModuleStub UInt32)) :
    StoreKey → Option Bytes
  | .meta_ _ => postcard.encodeMeta blob
  | .record _ idx => records[idx.toNat]?.bind postcard.encodeRecord
  | .sourceIndex _ _ => none
  | .params _ _ => none

theorem get_writeLibrary {store after : ByteStore} {library : LibraryId} {blob : MetaBlob}
    {records : List (ClassOrModuleStub UInt32)}
    (ran : writeLibrary postcard store library blob records = some after) (k : StoreKey) :
    after.get k.bytes =
      if k.library = library then
        (libraryEntries postcard blob records k).or
          (if library ≠ lastLibrary then none else store.get k.bytes)
      else store.get k.bytes := by
  unfold writeLibrary at ran
  split at ran
  · cases ran
  next payload encoded =>
    rw [get_putRecords ran]
    have put : ((deleteLibraryRange store library).1.put (metaKey library) payload).get k.bytes =
        if k = .meta_ library then some payload
        else (deleteLibraryRange store library).1.get k.bytes :=
      get_put_key _ (.meta_ library) k payload
    rw [put, get_deleteLibraryRange]
    by_cases mine : k.library = library
    · cases k with
      | meta_ owner =>
          obtain rfl : owner = library := mine
          simp [recordEntry, libraryEntries, StoreKey.library, encoded]
      | record owner idx =>
          obtain rfl : owner = library := mine
          simp [recordEntry, libraryEntries, StoreKey.library]
      | sourceIndex owner hash =>
          obtain rfl : owner = library := mine
          simp [recordEntry, libraryEntries, StoreKey.library]
      | params owner hash =>
          obtain rfl : owner = library := mine
          simp [recordEntry, libraryEntries, StoreKey.library]
    · have other : k ≠ .meta_ library := fun same => mine (by rw [same]; rfl)
      have none_mine : recordEntry postcard library 0 records k = none := by
        cases k with
        | record owner idx => exact if_neg fun both => mine both.1
        | _ => rfl
      simp [mine, other, none_mine]

theorem get_writeSourceIndex {store after : ByteStore} {library : LibraryId} {blob : SourceIndexBlob}
    (ran : writeSourceIndex postcard store library blob = some after) :
    ∃ payload, postcard.encodeSourceIndex blob = some payload ∧
      ∀ k : StoreKey, after.get k.bytes =
        if k = .sourceIndex library (postcard.hashStamp blob.stamp) then some payload
        else if k.isSourceIndexOf library then none
        else store.get k.bytes := by
  unfold writeSourceIndex at ran
  split at ran
  · cases ran
  next payload encoded =>
    obtain rfl := Option.some.inj ran
    refine ⟨payload, encoded, ?_⟩
    intro k
    have put := get_put_key (deleteHashedKind store library kindSourceIndex).1
      (.sourceIndex library (postcard.hashStamp blob.stamp)) k payload
    have deleted : (deleteHashedKind store library kindSourceIndex).1.get k.bytes =
        if k.isSourceIndexOf library then none else store.get k.bytes := by
      unfold deleteHashedKind
      rw [get_deleteRange]
      simp only [inRange_sourceIndex]
    rw [← deleted]
    exact put

/-- The library's entries become `written`, the entries of the others stay. -/
def Replaces (library : LibraryId) (written : StoreKey → Option Bytes) (old new : ByteStore) : Prop :=
  ∀ k : StoreKey, new.get k.bytes = if k.library = library then written k else old.get k.bytes

/-- The library's source indexes become the one entry, every other entry stays. -/
def ReplacesSourceIndex (library : LibraryId) (hash : UInt64) (payload : Option Bytes)
    (old new : ByteStore) : Prop :=
  ∀ k : StoreKey, new.get k.bytes =
    match k with
    | .sourceIndex owner other =>
        if owner = library then (if other = hash then payload else none) else old.get k.bytes
    | _ => old.get k.bytes

/-- A library with an id after it has the range of its own entries, the last one has no range: what is
cleared or written is exactly its entries unless stale ones of the last library are left. -/
theorem libraries_removed_exactly_iff (postcard : Postcard) (store : ByteStore)
    (library : LibraryId) :
    (Replaces library (fun _ => none) store (clearLibrary store library) ↔
      library ≠ lastLibrary ∨
        ∀ k : StoreKey, k.library = library → store.get k.bytes = none) ∧
    (∀ blob records after, writeLibrary postcard store library blob records = some after →
      (Replaces library (libraryEntries postcard blob records) store after ↔
        library ≠ lastLibrary ∨
          ∀ k : StoreKey, k.library = library → libraryEntries postcard blob records k = none →
            store.get k.bytes = none)) ∧
    (∀ blob after, writeSourceIndex postcard store library blob = some after →
      ReplacesSourceIndex library (postcard.hashStamp blob.stamp)
        (postcard.encodeSourceIndex blob) store after) := by
  refine ⟨?_, ?_, ?_⟩
  · have cleared (k : StoreKey) := get_deleteLibraryRange store library k
    constructor
    · intro exactly
      by_cases last : library = lastLibrary
      · refine .inr fun k mine => ?_
        have gone := exactly k
        rw [if_pos mine] at gone
        rwa [clearLibrary, cleared k, if_neg fun inner => inner.2 last] at gone
      · exact .inl last
    · intro enough k
      rw [clearLibrary, cleared k]
      by_cases mine : k.library = library
      · rcases enough with inner | absent
        · rw [if_pos ⟨mine, inner⟩, if_pos mine]
        · rw [if_pos mine, absent k mine, ite_self]
      · rw [if_neg mine, if_neg fun both => mine both.1]
  · intro blob records after ran
    have written (k : StoreKey) := get_writeLibrary ran k
    constructor
    · intro exactly
      by_cases last : library = lastLibrary
      · refine .inr fun k mine absent => ?_
        have same := exactly k
        rw [written k, if_pos mine, if_pos mine, absent, if_neg (not_not_intro last)] at same
        simpa using same
      · exact .inl last
    · intro enough k
      rw [written k]
      by_cases mine : k.library = library
      · rw [if_pos mine, if_pos mine]
        rcases enough with inner | absent
        · rw [if_pos inner, Option.or_none]
        · cases entry : libraryEntries postcard blob records k with
          | some value => rfl
          | none => rw [absent k mine entry, ite_self, Option.or_none]
      · rw [if_neg mine, if_neg mine]
  · intro blob after ran
    obtain ⟨payload, encoded, gets⟩ := get_writeSourceIndex ran
    intro k
    rw [gets k, encoded]
    cases k with
    | sourceIndex owner hash =>
        by_cases mine : owner = library
        · subst mine
          by_cases same : hash = postcard.hashStamp blob.stamp <;>
            simp [same, StoreKey.isSourceIndexOf]
        · simp [mine, StoreKey.isSourceIndexOf]
    | _ => simp [StoreKey.isSourceIndexOf]

end Transactions

/-- Writing a library over its previous build leaves the entries of the new one. -/
theorem libraries_removed_exactly_rewrite :
    Replaces 7 (libraryEntries smallPostcard (smallMeta 200) [])
      (empty.put (recordKey 7 3) [1])
      ((writeLibrary smallPostcard (empty.put (recordKey 7 3) [1]) 7 (smallMeta 200) []).get
        (by rfl)) :=
  ((libraries_removed_exactly_iff smallPostcard (empty.put (recordKey 7 3) [1]) 7).2.1
    (smallMeta 200) [] _ (Option.some_get _).symm).mpr (.inl (by decide))

/-- The library with the last id is not cleared. -/
theorem last_library_not_cleared :
    ¬ Replaces lastLibrary (fun _ => none) (empty.put (metaKey lastLibrary) [1])
      (clearLibrary (empty.put (metaKey lastLibrary) [1]) lastLibrary) := by
  intro exactly
  have gone : (clearLibrary (empty.put (metaKey lastLibrary) [1]) lastLibrary).get
      (metaKey lastLibrary) = none := exactly (.meta_ lastLibrary)
  exact absurd gone (by decide)

end CaffeineLs.Hir
