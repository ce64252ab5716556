/-
Module: CaffeineLs.Proofs.StubPruning
Purpose: When pruning deletes a library that another session wrote or touched after the prune looked.
Trusted boundary: a meta blob that was encoded decodes to itself
Main exports: Keyed, keyed_apply, prune_deletes_no_fresh_iff
-/
import CaffeineLs.Proofs.StubCache

namespace CaffeineLs.Hir

open Wire Bytes ByteStore

/-- Every key of the store is one that the cache writes. -/
def Keyed (store : ByteStore) : Prop :=
  ∀ entry ∈ store.entries, ∃ k : StoreKey, entry.1 = k.bytes

theorem keyed_empty : Keyed empty := nofun

theorem keyed_put {store : ByteStore} (keyed : Keyed store) (k : StoreKey) (value : Bytes) :
    Keyed (store.put k.bytes value) := by
  intro entry member
  rcases mem_insertEntry member with rfl | old
  · exact ⟨k, rfl⟩
  · exact keyed entry old

theorem keyed_deleteRange {store : ByteStore} (keyed : Keyed store) (start stop : Bytes) :
    Keyed (store.deleteRange start stop).1 :=
  fun entry member => keyed entry (List.mem_filter.mp member).1

theorem keyed_putRecords {postcard : Postcard} {library : LibraryId}
    {records : List (ClassOrModuleStub UInt32)} {idx : Nat} {store after : ByteStore}
    (keyed : Keyed store) (ran : putRecords postcard library idx records store = some after) :
    Keyed after := by
  induction records generalizing idx store with
  | nil =>
      obtain rfl := Option.some.inj ran
      exact keyed
  | cons record records ih =>
      unfold putRecords at ran
      split at ran
      · split at ran
        · cases ran
        · exact ih (keyed_put keyed (.record library (UInt32.ofNat idx)) _) ran
      · cases ran

theorem keyed_touchLibrary {postcard : Postcard} {store : ByteStore} (keyed : Keyed store)
    (now : UInt64) (library : LibraryId) : Keyed (touchLibrary postcard now store library) := by
  unfold touchLibrary
  split
  · exact keyed
  · split
    · exact keyed
    · split
      · exact keyed
      · exact keyed_put keyed (.meta_ library) _

/-- The transactions of the sessions leave only keys that the cache writes. -/
theorem keyed_apply (postcard : Postcard) (t : Transaction) {store : ByteStore}
    (keyed : Keyed store) : Keyed (t.apply postcard store) := by
  cases t with
  | write library blob records =>
      change Keyed ((writeLibrary postcard store library blob records).getD store)
      unfold writeLibrary
      split
      · exact keyed
      next payload encoded =>
        cases ran : putRecords postcard library 0 records
            ((deleteLibraryRange store library).1.put (metaKey library) payload) with
        | none => exact keyed
        | some after =>
            have cleared := keyed_deleteRange keyed (metaKey library) (metaKey (library + 1))
            exact keyed_putRecords (keyed_put cleared (.meta_ library) payload) ran
  | touch libraries now =>
      change Keyed (touchLibraries postcard store now libraries)
      unfold touchLibraries
      induction libraries generalizing store with
      | nil => exact keyed
      | cons library rest ih => exact ih (keyed_touchLibrary keyed now library)

/-! ### The snapshot -/

/-- What the loop of `prune_stale` sees of a key. -/
theorem scanned_key (k : StoreKey) :
    (k.bytes.length ≠ keyLen ∨ k.bytes[8]? ≠ some kindMeta) ∨
      ∃ library, k = .meta_ library ∧ k.bytes.length = keyLen ∧ k.bytes[8]? = some kindMeta ∧
        UInt64.ofNat (ofBigEndian (k.bytes.take 8)) = library := by
  have eighth (bytes rest : Bytes) (kind : UInt8) (eight : bytes.length = 8) :
      (bytes ++ kind :: rest)[8]? = some kind := by
    rw [List.getElem?_append_right (Nat.le_of_eq eight), eight]
    rfl
  cases k with
  | meta_ library =>
      refine .inr ⟨library, rfl, ?_, eighth _ _ _ (length_bigEndian 8 _), ?_⟩
      · simp [StoreKey.bytes, metaKey, key, keyLen]
      · have front : (StoreKey.meta_ library).bytes.take 8 = bigEndian 8 library.toNat := by
          change (bigEndian 8 library.toNat ++ _).take 8 = _
          rw [List.take_append_of_le_length (by simp), List.take_of_length_le (by simp)]
        rw [front, ofBigEndian_bigEndian, toNat_mod_size, UInt64.ofNat_toNat]
  | record library idx =>
      refine .inl (.inr ?_)
      rw [show (StoreKey.record library idx).bytes[8]? = some kindRecord from
        eighth _ _ _ (length_bigEndian 8 _)]
      decide
  | sourceIndex library hash =>
      refine .inl (.inl ?_)
      simp [StoreKey.bytes, hashedKey, keyLen]
  | params library hash =>
      refine .inl (.inl ?_)
      simp [StoreKey.bytes, hashedKey, keyLen]

section Snapshot

variable {postcard : Postcard} {cutoff : UInt64} {live : LibraryId → Bool}

theorem mem_scanStale {entries : List (Bytes × Bytes)} {seen : Option LibraryId}
    (sorted : entries.Pairwise fun one two => before one.1 two.1)
    (keyed : ∀ entry ∈ entries, ∃ k : StoreKey, entry.1 = k.bytes)
    (past : ∀ library, seen = some library → ∀ entry ∈ entries, entry.1 ≠ metaKey library)
    (library : LibraryId) :
    library ∈ scanStale postcard cutoff live seen entries ↔
      ∃ value, (metaKey library, value) ∈ entries ∧ prunes postcard cutoff live library value := by
  induction entries generalizing seen with
  | nil => simp [scanStale]
  | cons entry rest ih =>
      obtain ⟨above, sortedRest⟩ := List.pairwise_cons.mp sorted
      have keyedRest : ∀ entry ∈ rest, ∃ k : StoreKey, entry.1 = k.bytes :=
        fun other member => keyed other (List.mem_cons_of_mem entry member)
      have pastRest : ∀ library, seen = some library → ∀ entry ∈ rest, entry.1 ≠ metaKey library :=
        fun library last other member =>
          past library last other (List.mem_cons_of_mem entry member)
      obtain ⟨bytes, value⟩ := entry
      obtain ⟨k, rfl⟩ : ∃ k : StoreKey, bytes = k.bytes := keyed (bytes, value) List.mem_cons_self
      unfold scanStale
      rcases scanned_key k with other | ⟨owner, rfl, length, kind, decoded⟩
      · rw [if_pos other, ih sortedRest keyedRest pastRest]
        have notMeta : metaKey library ≠ k.bytes := by
          intro same
          obtain rfl : k = .meta_ library := StoreKey.bytes_inj same.symm
          rcases other with long | wrong
          · exact long (by simp [StoreKey.bytes, metaKey, key, keyLen])
          · apply wrong
            change (bigEndian 8 library.toNat ++ kindMeta :: bigEndian 4 0)[8]? = some kindMeta
            rw [List.getElem?_append_right (by simp)]
            simp
        simp [notMeta]
      · have known : ¬ ((StoreKey.meta_ owner).bytes.length ≠ keyLen ∨
            (StoreKey.meta_ owner).bytes[8]? ≠ some kindMeta) := by
          simp [length, kind]
        have new : seen ≠ some owner := by
          intro last
          exact past owner last _ List.mem_cons_self rfl
        have pastOwner : ∀ library, some owner = some library →
            ∀ entry ∈ rest, entry.1 ≠ metaKey library := by
          intro library same other member eq
          obtain rfl := Option.some.inj same
          have order := above other member
          rw [eq] at order
          simp [StoreKey.bytes] at order
        have inRest := ih sortedRest keyedRest pastOwner
        rw [if_neg known]
        simp only [decoded]
        rw [if_neg new]
        by_cases mine : library = owner
        · subst mine
          have absent : ∀ value, (metaKey library, value) ∉ rest :=
            fun value member => pastOwner library rfl _ member rfl
          have notLater : library ∉ scanStale postcard cutoff live (some library) rest := by
            rw [inRest]
            rintro ⟨value, member, -⟩
            exact absent value member
          by_cases goes : prunes postcard cutoff live library value
          · simp [goes, StoreKey.bytes]
          · simp [goes, notLater, StoreKey.bytes, absent]
        · have differs : metaKey library ≠ (StoreKey.meta_ owner).bytes := by
            intro same
            apply mine
            have keys : StoreKey.meta_ library = .meta_ owner := StoreKey.bytes_inj same
            injection keys
          by_cases goes : prunes postcard cutoff live owner value
          · simp [goes, mine, inRest, differs]
          · simp [goes, inRest, differs]

/-- The libraries that the snapshot gives up: those with a meta blob, stale or unreadable, that are not
live. -/
theorem mem_staleLibraries {store : ByteStore} (keyed : Keyed store) (library : LibraryId) :
    library ∈ staleLibraries postcard store cutoff live ↔
      ∃ value, store.get (metaKey library) = some value ∧
        prunes postcard cutoff live library value := by
  have past : ∀ library, none = some library → ∀ entry ∈ store.entries,
      entry.1 ≠ metaKey library := by
    intro library seen
    cases seen
  unfold staleLibraries
  rw [mem_scanStale store.sorted keyed past]
  simp only [mem_iff_get]

end Snapshot

/-! ### Fresh libraries -/

/-- The library has a readable meta blob that was used at the cutoff or later. -/
def Fresh (postcard : Postcard) (cutoff : UInt64) (store : ByteStore) (library : LibraryId) : Prop :=
  ∃ blob, readMeta postcard store library = some blob ∧ cutoff ≤ blob.lastAccessed

/-- The transaction leaves the library fresh: it writes it with a current, recent blob, or touches it
at or after the cutoff while its blob is readable. -/
def Transaction.renews (postcard : Postcard) (cutoff : UInt64) (library : LibraryId)
    (store : ByteStore) : Transaction → Prop
  | .write owner blob records =>
      owner = library ∧ (writeLibrary postcard store owner blob records).isSome ∧
        blob.formatVersion = cacheFormatVersion ∧ cutoff ≤ blob.lastAccessed
  | .touch libraries now =>
      library ∈ libraries ∧ cutoff ≤ now ∧ ∃ blob, readMeta postcard store library = some blob ∧
        (postcard.encodeMeta { blob with lastAccessed := now }).isSome

/-- The transaction leaves the library written or touched, but not fresh. -/
def Transaction.ages (postcard : Postcard) (cutoff : UInt64) (library : LibraryId)
    (store : ByteStore) : Transaction → Prop
  | .write owner blob records =>
      owner = library ∧ (writeLibrary postcard store owner blob records).isSome ∧
        ¬ (blob.formatVersion = cacheFormatVersion ∧ cutoff ≤ blob.lastAccessed)
  | .touch libraries now =>
      library ∈ libraries ∧ ¬ cutoff ≤ now ∧ ∃ blob, readMeta postcard store library = some blob ∧
        (postcard.encodeMeta { blob with lastAccessed := now }).isSome

section Sessions

variable {postcard : Postcard}
  (roundTrip : ∀ blob bytes, postcard.encodeMeta blob = some bytes →
    postcard.decodeMetaBlob bytes = some blob)

theorem readMeta_current {store : ByteStore} {library : LibraryId} {blob : MetaBlob}
    (read : readMeta postcard store library = some blob) :
    blob.formatVersion = cacheFormatVersion := by
  unfold readMeta at read
  obtain ⟨bytes, -, decoded⟩ := Option.bind_eq_some_iff.mp read
  unfold decodeMeta at decoded
  split at decoded
  · cases decoded
  · split at decoded
    · cases decoded
    next current =>
      obtain rfl := Option.some.inj decoded
      exact Decidable.not_not.mp current

theorem readMeta_put_other (store : ByteStore) {owner library : LibraryId} (value : Bytes)
    (other : library ≠ owner) :
    readMeta postcard (store.put (metaKey owner) value) library =
      readMeta postcard store library := by
  have keys : metaKey library ≠ metaKey owner := by
    intro same
    apply other
    have keys : StoreKey.meta_ library = .meta_ owner := StoreKey.bytes_inj same
    injection keys
  unfold readMeta
  rw [get_put, if_neg keys]

/-- What a touch at `now` makes of a meta blob. -/
def touched (postcard : Postcard) (now : UInt64) (blob : MetaBlob) : MetaBlob :=
  if (postcard.encodeMeta { blob with lastAccessed := now }).isSome then
    { blob with lastAccessed := now }
  else blob

include roundTrip in
theorem readMeta_touchLibrary (now : UInt64) (store : ByteStore) (owner library : LibraryId) :
    readMeta postcard (touchLibrary postcard now store owner) library =
      if library = owner then (readMeta postcard store library).map (touched postcard now)
      else readMeta postcard store library := by
  by_cases mine : library = owner
  · subst mine
    rw [if_pos rfl]
    cases read : readMeta postcard store library with
    | none =>
        have same : touchLibrary postcard now store library = store := by
          unfold touchLibrary
          unfold readMeta at read
          cases found : store.get (metaKey library) with
          | none => rfl
          | some bytes =>
              rw [found] at read
              change decodeMeta postcard bytes = none at read
              simp [read]
        rw [same, read]
        rfl
    | some blob =>
        have current := readMeta_current read
        have held := read
        unfold readMeta at held
        obtain ⟨bytes, found, decoded⟩ := Option.bind_eq_some_iff.mp held
        unfold touchLibrary touched
        simp only [found, decoded, Option.map_some]
        cases encoded : postcard.encodeMeta { blob with lastAccessed := now } with
        | none => simpa using read
        | some payload =>
            have back := roundTrip _ _ encoded
            unfold readMeta decodeMeta
            rw [get_put, if_pos rfl]
            simp [back, current]
  · rw [if_neg mine]
    unfold touchLibrary
    split
    · rfl
    · split
      · rfl
      · split
        · rfl
        · exact readMeta_put_other store _ mine

theorem touched_touched (now : UInt64) (blob : MetaBlob) :
    touched postcard now (touched postcard now blob) = touched postcard now blob := by
  unfold touched
  split
  · rfl
  · rfl

include roundTrip in
theorem readMeta_touchLibraries (now : UInt64) (library : LibraryId) (libraries : List LibraryId)
    (store : ByteStore) :
    readMeta postcard (touchLibraries postcard store now libraries) library =
      if library ∈ libraries then (readMeta postcard store library).map (touched postcard now)
      else readMeta postcard store library := by
  unfold touchLibraries
  induction libraries generalizing store with
  | nil => rfl
  | cons owner rest ih =>
      rw [List.foldl_cons, ih, readMeta_touchLibrary roundTrip]
      by_cases mine : library = owner
      · by_cases again : library ∈ rest
        · rw [if_pos again, if_pos mine, if_pos (List.mem_cons_of_mem owner again), Option.map_map]
          congr 1
          funext blob
          exact touched_touched now blob
        · rw [if_neg again, if_pos mine, if_pos (List.mem_cons.mpr (.inl mine))]
      · by_cases again : library ∈ rest
        · rw [if_pos again, if_neg mine, if_pos (List.mem_cons_of_mem owner again)]
        · have absent : library ∉ owner :: rest := by
            rw [List.mem_cons]
            rintro (same | later)
            · exact mine same
            · exact again later
          rw [if_neg again, if_neg mine, if_neg absent]

include roundTrip in
theorem readMeta_writeLibrary {store after : ByteStore} {owner : LibraryId} {blob : MetaBlob}
    {records : List (ClassOrModuleStub UInt32)}
    (ran : writeLibrary postcard store owner blob records = some after) (library : LibraryId) :
    readMeta postcard after library =
      if library = owner then
        (if blob.formatVersion = cacheFormatVersion then some blob else none)
      else readMeta postcard store library := by
  have gets : after.get (metaKey library) =
      if library = owner then
        (postcard.encodeMeta blob).or
          (if owner ≠ lastLibrary then none else store.get (metaKey library))
      else store.get (metaKey library) := get_writeLibrary ran (.meta_ library)
  unfold readMeta
  rw [gets]
  by_cases mine : library = owner
  · rw [if_pos mine, if_pos mine]
    have encodes : (postcard.encodeMeta blob).isSome := by
      unfold writeLibrary at ran
      cases encoded : postcard.encodeMeta blob with
      | none => simp [encoded] at ran
      | some payload => rfl
    obtain ⟨payload, encoded⟩ := Option.isSome_iff_exists.mp encodes
    rw [encoded, Option.some_or, Option.bind_some, decodeMeta, roundTrip _ _ encoded]
    by_cases current : blob.formatVersion = cacheFormatVersion <;> simp [current]
  · rw [if_neg mine, if_neg mine]

include roundTrip in
/-- What one transaction of another session does to the freshness of a library. -/
theorem fresh_apply (cutoff : UInt64) (library : LibraryId) (store : ByteStore) (t : Transaction) :
    Fresh postcard cutoff (t.apply postcard store) library ↔
      t.renews postcard cutoff library store ∨
        (Fresh postcard cutoff store library ∧ ¬ t.ages postcard cutoff library store) := by
  cases t with
  | write owner blob records =>
      unfold Transaction.apply Transaction.renews Transaction.ages
      cases ran : writeLibrary postcard store owner blob records with
      | none => simp [ran]
      | some after =>
          unfold Fresh
          simp only [ran, Option.getD_some, Option.isSome_some, true_and,
            readMeta_writeLibrary roundTrip ran]
          by_cases mine : library = owner
          · subst mine
            by_cases current : blob.formatVersion = cacheFormatVersion <;> simp [current]
          · have other : owner ≠ library := fun same => mine same.symm
            simp [mine, other]
  | touch libraries now =>
      unfold Transaction.apply Transaction.renews Transaction.ages Fresh
      rw [readMeta_touchLibraries roundTrip]
      by_cases mine : library ∈ libraries
      · cases read : readMeta postcard store library with
        | none => simp [mine]
        | some blob =>
            cases encoded : postcard.encodeMeta { blob with lastAccessed := now } with
            | none => simp [mine, touched, encoded]
            | some payload =>
                by_cases recent : cutoff ≤ now <;> simp [mine, touched, encoded, recent]
      · simp [mine]

end Sessions

/-! ### Interleavings -/

/-- No transaction of the list leaves the library old. -/
def NeverAged (postcard : Postcard) (cutoff : UInt64) (library : LibraryId) :
    List Transaction → ByteStore → Prop
  | [], _ => True
  | t :: rest, store =>
      ¬ t.ages postcard cutoff library store ∧
        NeverAged postcard cutoff library rest (t.apply postcard store)

/-- A transaction of the list renews the library, and none after it leaves it old. -/
def RenewedLast (postcard : Postcard) (cutoff : UInt64) (library : LibraryId) :
    List Transaction → ByteStore → Prop
  | [], _ => False
  | t :: rest, store =>
      (t.renews postcard cutoff library store ∧
          NeverAged postcard cutoff library rest (t.apply postcard store)) ∨
        RenewedLast postcard cutoff library rest (t.apply postcard store)

section Interleavings

variable {postcard : Postcard}
  (roundTrip : ∀ blob bytes, postcard.encodeMeta blob = some bytes →
    postcard.decodeMetaBlob bytes = some blob)

include roundTrip in
theorem fresh_commitAll (cutoff : UInt64) (library : LibraryId) (between : List Transaction)
    (store : ByteStore) :
    Fresh postcard cutoff (commitAll postcard between store) library ↔
      RenewedLast postcard cutoff library between store ∨
        (Fresh postcard cutoff store library ∧
          NeverAged postcard cutoff library between store) := by
  induction between generalizing store with
  | nil => simp [commitAll, RenewedLast, NeverAged]
  | cons t rest ih =>
      simp only [commitAll, RenewedLast, NeverAged]
      rw [ih, fresh_apply roundTrip]
      constructor
      · rintro (renewed | ⟨renews | ⟨fresh, kept⟩, never⟩)
        · exact .inl (.inr renewed)
        · exact .inl (.inl ⟨renews, never⟩)
        · exact .inr ⟨fresh, kept, never⟩
      · rintro ((⟨renews, never⟩ | renewed) | ⟨fresh, kept, never⟩)
        · exact .inr ⟨.inl renews, never⟩
        · exact .inl renewed
        · exact .inr ⟨.inr ⟨fresh, kept⟩, never⟩

theorem readMeta_deleteLibraryRange (store : ByteStore) (owner library : LibraryId) :
    readMeta postcard (deleteLibraryRange store owner).1 library =
      if library = owner ∧ owner ≠ lastLibrary then none else readMeta postcard store library := by
  have gets : (deleteLibraryRange store owner).1.get (metaKey library) =
      if library = owner ∧ owner ≠ lastLibrary then none else store.get (metaKey library) :=
    get_deleteLibraryRange store owner (.meta_ library)
  unfold readMeta
  rw [gets]
  split
  · rfl
  · rfl

/-- The range of the last library ends before it starts. -/
theorem deleteLibraryRange_last (store : ByteStore) :
    (deleteLibraryRange store lastLibrary).2 = 0 := by
  apply Nat.eq_zero_of_not_pos
  intro some
  obtain ⟨key, value, inside, -⟩ := (deleteRange_count_pos store _ _).mp some
  unfold inRange at inside
  rw [Bool.and_eq_true, Bool.not_eq_true'] at inside
  have wraps : before (metaKey (lastLibrary + 1)) (metaKey lastLibrary) := by rfl
  rw [before_trans inside.2 wraps] at inside
  simp at inside

/-- Among the libraries that are deleted there is a fresh one exactly when the store holds a fresh one
of those to delete, the last id apart. -/
theorem pruned_fresh_iff (cutoff : UInt64) (stale : List LibraryId) (store : ByteStore) :
    (∃ pruned ∈ (pruneLibraries stale store).2, Fresh postcard cutoff pruned.2 pruned.1) ↔
      ∃ library ∈ stale, library ≠ lastLibrary ∧ Fresh postcard cutoff store library := by
  induction stale generalizing store with
  | nil => simp [pruneLibraries]
  | cons owner stale ih =>
      have counted : owner ≠ lastLibrary → Fresh postcard cutoff store owner →
          0 < (deleteLibraryRange store owner).2 := by
        rintro inner ⟨blob, read, -⟩
        obtain ⟨bytes, found, -⟩ := Option.bind_eq_some_iff.mp read
        apply (deleteRange_count_pos store _ _).mpr
        exact ⟨metaKey owner, bytes, (inRange_library (.meta_ owner) owner).mpr ⟨rfl, inner⟩, found⟩
      have after (library : LibraryId) :
          Fresh postcard cutoff (deleteLibraryRange store owner).1 library ↔
            Fresh postcard cutoff store library ∧ ¬ (library = owner ∧ owner ≠ lastLibrary) := by
        unfold Fresh
        rw [readMeta_deleteLibraryRange]
        split
        next gone => simp [gone]
        next kept => simp [kept]
      have later := ih (deleteLibraryRange store owner).1
      simp only [pruneLibraries]
      constructor
      · rintro ⟨pruned, member, fresh⟩
        have cases_pruned : (0 < (deleteLibraryRange store owner).2 ∧ pruned = (owner, store)) ∨
            pruned ∈ (pruneLibraries stale (deleteLibraryRange store owner).1).2 := by
          split at member
          next counts =>
            rcases List.mem_cons.mp member with same | rest
            · exact .inl ⟨counts, same⟩
            · exact .inr rest
          next => exact .inr member
        rcases cases_pruned with ⟨counts, rfl⟩ | rest
        · refine ⟨owner, List.mem_cons_self, ?_, fresh⟩
          rintro rfl
          rw [deleteLibraryRange_last] at counts
          exact absurd counts (Nat.lt_irrefl 0)
        · obtain ⟨library, listed, inner, held⟩ := later.mp ⟨pruned, rest, fresh⟩
          exact ⟨library, List.mem_cons_of_mem owner listed, inner, ((after library).mp held).1⟩
      · rintro ⟨library, listed, inner, fresh⟩
        by_cases mine : library = owner
        · subst mine
          refine ⟨(library, store), ?_, fresh⟩
          rw [if_pos (counted inner fresh)]
          exact List.mem_cons_self
        · have listedRest : library ∈ stale := by
            rcases List.mem_cons.mp listed with same | rest
            · exact absurd same mine
            · exact rest
          have held := (after library).mpr ⟨fresh, fun both => mine both.1⟩
          obtain ⟨pruned, member, freshThen⟩ := later.mpr ⟨library, listedRest, inner, held⟩
          refine ⟨pruned, ?_, freshThen⟩
          split
          · exact List.mem_cons_of_mem _ member
          · exact member

/-- A library that `prune_stale` deletes is not fresh in the store that it is deleted from. -/
def PrunesNoFresh (postcard : Postcard) (live : LibraryId → Bool) (now : UInt64)
    (between : List Transaction) (store : ByteStore) : Prop :=
  ∀ pruned ∈ (pruneStale postcard live now between store).2,
    ¬ Fresh postcard (pruneCutoff now) pruned.2 pruned.1

include roundTrip in
/-- Pruning spares the fresh libraries exactly when no library that its snapshot gave up was renewed by
the last transaction that changed its stamp before the deletion. -/
theorem prune_deletes_no_fresh_iff (live : LibraryId → Bool) (now : UInt64)
    (between : List Transaction) {store : ByteStore} (keyed : Keyed store) :
    PrunesNoFresh postcard live now between store ↔
      ∀ library value, library ≠ lastLibrary → store.get (metaKey library) = some value →
        prunes postcard (pruneCutoff now) live library value →
        ¬ RenewedLast postcard (pruneCutoff now) library between store := by
  have some_fresh := @pruned_fresh_iff postcard (pruneCutoff now)
    (staleLibraries postcard store (pruneCutoff now) live) (commitAll postcard between store)
  have not_fresh : ∀ library value, store.get (metaKey library) = some value →
      prunes postcard (pruneCutoff now) live library value →
      ¬ Fresh postcard (pruneCutoff now) store library := by
    rintro library value found goes ⟨blob, read, recent⟩
    unfold readMeta at read
    rw [found, Option.bind_some] at read
    simp only [prunes, read, Bool.and_eq_true, decide_eq_true_eq] at goes
    exact absurd goes.1 (UInt64.not_lt.mpr recent)
  unfold PrunesNoFresh pruneStale
  constructor
  · intro spares library value inner found goes renewed
    have held := (fresh_commitAll roundTrip _ library between store).mpr (.inl renewed)
    have listed : library ∈ staleLibraries postcard store (pruneCutoff now) live :=
      (mem_staleLibraries keyed library).mpr ⟨value, found, goes⟩
    obtain ⟨pruned, member, fresh⟩ := some_fresh.mpr ⟨library, listed, inner, held⟩
    exact spares pruned member fresh
  · intro never pruned member fresh
    obtain ⟨library, listed, inner, held⟩ := some_fresh.mp ⟨pruned, member, fresh⟩
    obtain ⟨value, found, goes⟩ := (mem_staleLibraries keyed library).mp listed
    rcases (fresh_commitAll roundTrip _ library between store).mp held with renewed | ⟨old, -⟩
    · exact never library value inner found goes renewed
    · exact not_fresh library value found goes old

end Interleavings

theorem get_pruneLibraries (stale : List LibraryId) (store : ByteStore) (k : StoreKey) :
    (pruneLibraries stale store).1.get k.bytes =
      if k.library ∈ stale ∧ k.library ≠ lastLibrary then none else store.get k.bytes := by
  induction stale generalizing store with
  | nil => simp [pruneLibraries]
  | cons owner stale ih =>
      rw [pruneLibraries, ih, get_deleteLibraryRange]
      grind

/-- A cache with one library, last used at the time 100. -/
def staleCache : ByteStore :=
  (writeLibrary smallPostcard empty 7 (smallMeta 100) []).getD empty

theorem staleCache_keyed : Keyed staleCache :=
  keyed_apply smallPostcard (.write 7 (smallMeta 100) []) keyed_empty

/-- Thirty days and 1000 seconds after the epoch a session touches the library between the two
transactions of another session's prune, which then deletes it. -/
theorem touched_library_pruned :
    ¬ PrunesNoFresh smallPostcard (fun _ => false) 2593000 [.touch [7] 2593000] staleCache := by
  intro spares
  have fresh : Fresh smallPostcard (pruneCutoff 2593000)
      (commitAll smallPostcard [.touch [7] 2593000] staleCache) 7 :=
    ⟨smallMeta 2593000, by decide, by decide⟩
  obtain ⟨pruned, member, freshThen⟩ := (pruned_fresh_iff (pruneCutoff 2593000)
    (staleLibraries smallPostcard staleCache (pruneCutoff 2593000) fun _ => false) _).mpr
      ⟨7, by decide, by decide, fresh⟩
  exact spares pruned member freshThen

/-- A prune with nothing between its transactions deletes the stale library only. -/
theorem prune_deletes_no_fresh_alone :
    PrunesNoFresh smallPostcard (fun _ => false) 2593000 [] staleCache :=
  (prune_deletes_no_fresh_iff smallPostcard_roundTrip (fun _ => false) 2593000 []
    staleCache_keyed).mpr fun _ _ _ _ _ renewed => renewed

end CaffeineLs.Hir
