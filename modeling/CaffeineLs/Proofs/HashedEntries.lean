/-
Module: CaffeineLs.Proofs.HashedEntries
Purpose: Which blobs the hashed entries of the stub cache are read back as, over every history of writes
  and every hash.
Trusted boundary: none
Main exports: Lossless, standingIndex, served_iff
-/
import CaffeineLs.Hir.HashedEntries
import CaffeineLs.Proofs.StubCache
import Mathlib.Data.List.Induction

namespace CaffeineLs.Hir

open ByteStore

/-- What is encoded is decoded again. -/
structure Lossless (postcard : HashedPostcard) : Prop where
  sourceIndex : ∀ blob bytes, postcard.encodeSourceIndex blob = some bytes →
    postcard.decodeSourceIndexBlob bytes = some blob
  params : ∀ blob bytes, postcard.encodeParams blob = some bytes →
    postcard.decodeParamsBlob bytes = some blob

section Histories

variable (postcard : HashedPostcard)

/-- The layout that a call stores for a library. -/
def CacheWrite.indexOf (library : LibraryId) : CacheWrite → Option SourceIndexBlob
  | .sourceIndex owner blob =>
      if owner = library ∧ (postcard.encodeSourceIndex blob).isSome then some blob else none
  | .params .. => none

/-- The answer that a call stores under a key of a library, with the sources it is for. -/
def CacheWrite.paramsUnder (library : LibraryId) (hash : UInt64) :
    CacheWrite → Option (SourcesStamp × ParamsBlob)
  | .params owner stamp blob =>
      if owner = library ∧
          paramsHash postcard stamp blob.class_ blob.method blob.descriptor = hash ∧
          (postcard.encodeParams blob).isSome then some (stamp, blob)
      else none
  | .sourceIndex .. => none

/-- The layout of a library that stands after a history: the last one stored. -/
def standingIndex (history : List CacheWrite) (library : LibraryId) : Option SourceIndexBlob :=
  (history.filterMap (CacheWrite.indexOf postcard library)).getLast?

/-- The answer that stands under a key: the last one stored. -/
def standingParams (history : List CacheWrite) (library : LibraryId) (hash : UInt64) :
    Option (SourcesStamp × ParamsBlob) :=
  (history.filterMap (CacheWrite.paramsUnder postcard library hash)).getLast?

theorem getLast?_filterMap_concat {α β : Type} (f : α → Option β) (history : List α) (last : α) :
    ((history ++ [last]).filterMap f).getLast? =
      (f last).or (history.filterMap f).getLast? := by
  rw [List.filterMap_append]
  cases stored : f last <;> simp [stored]

theorem afterWrites_concat (history : List CacheWrite) (last : CacheWrite) :
    afterWrites postcard (history ++ [last]) = last.apply postcard (afterWrites postcard history) := by
  simp [afterWrites]

/-- One call changes the entry of a source index if it stores a layout of the library. -/
theorem get_apply_sourceIndex (store : ByteStore) (call : CacheWrite) (library : LibraryId)
    (hash : UInt64) :
    (call.apply postcard store).get (StoreKey.sourceIndex library hash).bytes =
      match call.indexOf postcard library with
      | some blob =>
          if postcard.hashStamp blob.stamp = hash then postcard.encodeSourceIndex blob else none
      | none => store.get (StoreKey.sourceIndex library hash).bytes := by
  cases call with
  | sourceIndex owner blob =>
      simp only [CacheWrite.apply, CacheWrite.indexOf]
      cases ran : writeSourceIndex postcard.toPostcard store owner blob with
      | none =>
          have failed : postcard.encodeSourceIndex blob = none := by
            unfold writeSourceIndex at ran
            split at ran
            · assumption
            · cases ran
          rw [failed]
          simp
      | some after =>
          obtain ⟨payload, encoded, gets⟩ := get_writeSourceIndex ran
          rw [Option.getD_some, gets, encoded]
          by_cases mine : owner = library
          · subst mine
            by_cases here : postcard.hashStamp blob.stamp = hash
            · simp [here, encoded]
            · simp [here, Ne.symm here, StoreKey.isSourceIndexOf]
          · simp [mine, Ne.symm mine, StoreKey.isSourceIndexOf]
  | params owner stamp blob =>
      simp only [CacheWrite.apply, CacheWrite.indexOf]
      unfold writeParams
      cases postcard.encodeParams blob with
      | none => rfl
      | some payload =>
          have put := get_put_key store (.params owner
            (paramsHash postcard stamp blob.class_ blob.method blob.descriptor))
            (.sourceIndex library hash) payload
          simp only [reduceCtorEq, if_false] at put
          exact put

/-- One call changes the entry of a member if it stores an answer under its key. -/
theorem get_apply_params (store : ByteStore) (call : CacheWrite) (library : LibraryId)
    (hash : UInt64) :
    (call.apply postcard store).get (StoreKey.params library hash).bytes =
      match call.paramsUnder postcard library hash with
      | some answer => postcard.encodeParams answer.2
      | none => store.get (StoreKey.params library hash).bytes := by
  cases call with
  | sourceIndex owner blob =>
      simp only [CacheWrite.apply, CacheWrite.paramsUnder]
      cases ran : writeSourceIndex postcard.toPostcard store owner blob with
      | none => rfl
      | some after =>
          obtain ⟨payload, -, gets⟩ := get_writeSourceIndex ran
          rw [Option.getD_some, gets]
          simp [StoreKey.isSourceIndexOf]
  | params owner stamp blob =>
      simp only [CacheWrite.apply, CacheWrite.paramsUnder]
      unfold writeParams
      cases encoded : postcard.encodeParams blob with
      | none => simp
      | some payload =>
          have put := get_put_key store (.params owner
            (paramsHash postcard stamp blob.class_ blob.method blob.descriptor))
            (.params library hash) payload
          have stored : (store.put (paramsKey postcard owner stamp blob.class_ blob.method
              blob.descriptor) payload).get (StoreKey.params library hash).bytes =
              if StoreKey.params library hash = StoreKey.params owner
                (paramsHash postcard stamp blob.class_ blob.method blob.descriptor)
              then some payload else store.get (StoreKey.params library hash).bytes := put
          rw [Option.getD_some, stored]
          by_cases here : owner = library ∧
              paramsHash postcard stamp blob.class_ blob.method blob.descriptor = hash
          · obtain ⟨rfl, rfl⟩ := here
            simp [encoded]
          · have other : StoreKey.params library hash ≠ StoreKey.params owner
                (paramsHash postcard stamp blob.class_ blob.method blob.descriptor) := by
              intro same
              obtain ⟨owners, hashes⟩ := StoreKey.params.inj same
              exact here ⟨owners.symm, hashes.symm⟩
            rw [if_neg other, if_neg fun all => here ⟨all.1, all.2.1⟩]

/-- After a history the source index of a library is the one that stands. -/
theorem get_afterWrites_sourceIndex (history : List CacheWrite) (library : LibraryId)
    (hash : UInt64) :
    (afterWrites postcard history).get (StoreKey.sourceIndex library hash).bytes =
      (standingIndex postcard history library).bind fun blob =>
        if postcard.hashStamp blob.stamp = hash then postcard.encodeSourceIndex blob else none := by
  induction history using List.reverseRecOn with
  | nil => rfl
  | append_singleton history last ih =>
      rw [afterWrites_concat, get_apply_sourceIndex, ih, standingIndex, standingIndex,
        getLast?_filterMap_concat]
      cases last.indexOf postcard library <;> rfl

/-- After a history the answer under a key is the one that stands. -/
theorem get_afterWrites_params (history : List CacheWrite) (library : LibraryId) (hash : UInt64) :
    (afterWrites postcard history).get (StoreKey.params library hash).bytes =
      (standingParams postcard history library hash).bind fun answer =>
        postcard.encodeParams answer.2 := by
  induction history using List.reverseRecOn with
  | nil => rfl
  | append_singleton history last ih =>
      rw [afterWrites_concat, get_apply_params, ih, standingParams, standingParams,
        getLast?_filterMap_concat]
      cases last.paramsUnder postcard library hash <;> rfl

/-! ### What is read back -/

/-- The layout that stands was stored. -/
theorem standingIndex_stored {history : List CacheWrite} {library : LibraryId}
    {blob : SourceIndexBlob} (stands : standingIndex postcard history library = some blob) :
    CacheWrite.sourceIndex library blob ∈ history ∧
      ∃ payload, postcard.encodeSourceIndex blob = some payload := by
  obtain ⟨call, member, stored⟩ := List.mem_filterMap.mp (List.mem_of_getLast? stands)
  cases call with
  | sourceIndex owner blob' =>
      rw [CacheWrite.indexOf] at stored
      split at stored
      · rename_i mine
        obtain rfl := Option.some.inj stored
        rw [← mine.1]
        exact ⟨member, Option.isSome_iff_exists.mp mine.2⟩
      · cases stored
  | params owner stamp blob' => cases stored

/-- The answer that stands under a key was stored under it. -/
theorem standingParams_stored {history : List CacheWrite} {library : LibraryId} {hash : UInt64}
    {stamp : SourcesStamp} {blob : ParamsBlob}
    (stands : standingParams postcard history library hash = some (stamp, blob)) :
    CacheWrite.params library stamp blob ∈ history ∧
      paramsHash postcard stamp blob.class_ blob.method blob.descriptor = hash ∧
      ∃ payload, postcard.encodeParams blob = some payload := by
  obtain ⟨call, member, stored⟩ := List.mem_filterMap.mp (List.mem_of_getLast? stands)
  cases call with
  | sourceIndex owner blob' => cases stored
  | params owner stamp' blob' =>
      rw [CacheWrite.paramsUnder] at stored
      split at stored
      · rename_i mine
        obtain ⟨rfl, rfl⟩ := Prod.mk.inj (Option.some.inj stored)
        rw [← mine.1]
        exact ⟨member, mine.2.1, Option.isSome_iff_exists.mp mine.2.2⟩
      · cases stored

variable {postcard}

/-- A layout is read back where it stands, is of the current layout and its stamp hashes alike. -/
theorem readSourceIndex_eq_some_iff (lossless : Lossless postcard) (history : List CacheWrite)
    (library : LibraryId) (stamp : SourcesStamp) (blob : SourceIndexBlob) :
    readSourceIndex postcard (afterWrites postcard history) library stamp = some blob ↔
      standingIndex postcard history library = some blob ∧
        postcard.hashStamp blob.stamp = postcard.hashStamp stamp ∧
        blob.formatVersion = cacheFormatVersion := by
  have entry := get_afterWrites_sourceIndex postcard history library (postcard.hashStamp stamp)
  rw [StoreKey.bytes] at entry
  unfold readSourceIndex
  rw [entry]
  cases stands : standingIndex postcard history library with
  | none => simp
  | some standing =>
      obtain ⟨-, payload, encoded⟩ := standingIndex_stored postcard stands
      have decoded := lossless.sourceIndex standing payload encoded
      rw [Option.bind_some]
      by_cases alike : postcard.hashStamp standing.stamp = postcard.hashStamp stamp
      · rw [if_pos alike, encoded, Option.bind_some, decodeCurrent, decoded]
        simp only [Option.some.injEq]
        by_cases current : standing.formatVersion = cacheFormatVersion
        · rw [if_pos current]
          constructor
          · intro same
            obtain rfl := Option.some.inj same
            exact ⟨rfl, alike, current⟩
          · intro ⟨same, _⟩
            rw [same]
        · rw [if_neg current]
          constructor
          · nofun
          · intro ⟨same, _, current'⟩
            rw [← same] at current'
            exact absurd current' current
      · rw [if_neg alike]
        constructor
        · nofun
        · intro ⟨same, alike', _⟩
          obtain rfl := Option.some.inj same
          exact absurd alike' alike

/-- An answer is read back where it stands under the key, is of the current layout and is of the
member. -/
theorem readParams_eq_some_iff (lossless : Lossless postcard) (history : List CacheWrite)
    (library : LibraryId) (stamp : SourcesStamp) (class_ method descriptor : String)
    (blob : ParamsBlob) :
    readParams postcard (afterWrites postcard history) library stamp class_ method descriptor =
        some blob ↔
      (∃ written, standingParams postcard history library
        (paramsHash postcard stamp class_ method descriptor) = some (written, blob)) ∧
        blob.formatVersion = cacheFormatVersion ∧
        blob.class_ = class_ ∧ blob.method = method ∧ blob.descriptor = descriptor := by
  have entry := get_afterWrites_params postcard history library
    (paramsHash postcard stamp class_ method descriptor)
  rw [StoreKey.bytes] at entry
  unfold readParams paramsKey
  rw [entry]
  cases stands : standingParams postcard history library
      (paramsHash postcard stamp class_ method descriptor) with
  | none => simp
  | some answer =>
      obtain ⟨written, standing⟩ := answer
      obtain ⟨-, -, payload, encoded⟩ := standingParams_stored postcard stands
      have decoded := lossless.params standing payload encoded
      rw [Option.bind_some, encoded, Option.bind_some, decodeCurrent, decoded]
      simp only [Option.some.injEq, Prod.mk.injEq]
      by_cases current : standing.formatVersion = cacheFormatVersion
      · rw [if_pos current]
        simp only
        constructor
        · intro served
          split at served
          · rename_i member
            obtain rfl := Option.some.inj served
            exact ⟨⟨written, rfl, rfl⟩, current, member⟩
          · cases served
        · intro ⟨⟨_, _, same⟩, _, member⟩
          subst same
          rw [if_pos member]
      · rw [if_neg current]
        constructor
        · nofun
        · intro ⟨⟨_, _, same⟩, current', _⟩
          rw [← same] at current'
          exact absurd current' current

theorem getLast?_filterMap_stands {α β : Type} {f : α → Option β} {x : α} {b : β} (stored : f x = some b)
    (before : List α) {after : List α} (none_later : ∀ y ∈ after, f y = none) :
    ((before ++ x :: after).filterMap f).getLast? = some b := by
  simp [stored, List.filterMap_eq_nil_iff.mpr none_later]

variable (postcard)

/-- A layout that is read back was written for the library and for the very stamp. -/
def ServesIndex (history : List CacheWrite) (library : LibraryId) (stamp : SourcesStamp) : Prop :=
  ∀ blob, readSourceIndex postcard (afterWrites postcard history) library stamp = some blob →
    CacheWrite.sourceIndex library blob ∈ history ∧ blob.stamp = stamp

/-- An answer that is read back was written for the library, the member and the very stamp. -/
def ServesParams (history : List CacheWrite) (library : LibraryId) (stamp : SourcesStamp)
    (class_ method descriptor : String) : Prop :=
  ∀ blob, readParams postcard (afterWrites postcard history) library stamp class_ method descriptor =
      some blob →
    CacheWrite.params library stamp blob ∈ history ∧
      blob.class_ = class_ ∧ blob.method = method ∧ blob.descriptor = descriptor

/-- The layout that stands is not one of the current format for another stamp with the same hash. -/
def IndexUnconfused (history : List CacheWrite) (library : LibraryId) (stamp : SourcesStamp) : Prop :=
  ∀ blob, standingIndex postcard history library = some blob →
    blob.formatVersion = cacheFormatVersion →
      postcard.hashStamp blob.stamp = postcard.hashStamp stamp → blob.stamp = stamp

/-- The answer that stands under the key of a member is not one of the current format for the member
and for another stamp with the same hash, unless the same answer was written for the stamp too. -/
def ParamsUnconfused (history : List CacheWrite) (library : LibraryId) (stamp : SourcesStamp)
    (class_ method descriptor : String) : Prop :=
  ∀ written blob, written ≠ stamp → postcard.hashStamp written = postcard.hashStamp stamp →
    standingParams postcard history library (paramsHash postcard stamp class_ method descriptor) =
      some (written, blob) →
    blob.formatVersion = cacheFormatVersion →
      blob.class_ = class_ ∧ blob.method = method ∧ blob.descriptor = descriptor →
        CacheWrite.params library stamp blob ∈ history

/-- An answer for the member under its key is for a stamp with the same hash. -/
theorem standingParams_alike {history : List CacheWrite} {library : LibraryId}
    {stamp written : SourcesStamp} {class_ method descriptor : String} {blob : ParamsBlob}
    (stands : standingParams postcard history library
      (paramsHash postcard stamp class_ method descriptor) = some (written, blob))
    (member : blob.class_ = class_ ∧ blob.method = method ∧ blob.descriptor = descriptor) :
    postcard.hashStamp written = postcard.hashStamp stamp := by
  obtain ⟨rfl, rfl, rfl⟩ := member
  exact (UInt64.xor_left_inj _).mp (standingParams_stored postcard stands).2.1

/-- Over every history and with every hash, the entries read for a stamp are written for that stamp just
if no standing one was written for another stamp with the same hash. -/
theorem served_iff (lossless : Lossless postcard) (history : List CacheWrite) (library : LibraryId)
    (stamp : SourcesStamp) (class_ method descriptor : String) :
    (ServesIndex postcard history library stamp ↔ IndexUnconfused postcard history library stamp) ∧
      (ServesParams postcard history library stamp class_ method descriptor ↔
        ParamsUnconfused postcard history library stamp class_ method descriptor) := by
  constructor
  · constructor
    · intro serves blob stands current alike
      have read := (readSourceIndex_eq_some_iff lossless history library stamp blob).mpr
        ⟨stands, alike, current⟩
      exact (serves blob read).2
    · intro unconfused blob read
      obtain ⟨stands, alike, current⟩ :=
        (readSourceIndex_eq_some_iff lossless history library stamp blob).mp read
      exact ⟨(standingIndex_stored postcard stands).1, unconfused blob stands current alike⟩
  · constructor
    · intro serves written blob _ _ stands current member
      have read := (readParams_eq_some_iff lossless history library stamp class_ method descriptor
        blob).mpr ⟨⟨written, stands⟩, current, member⟩
      exact (serves blob read).1
    · intro unconfused blob read
      obtain ⟨⟨written, stands⟩, current, member⟩ :=
        (readParams_eq_some_iff lossless history library stamp class_ method descriptor blob).mp read
      refine ⟨?_, member⟩
      by_cases same : written = stamp
      · rw [← same]
        exact (standingParams_stored postcard stands).1
      · have alike := standingParams_alike postcard stands member
        exact unconfused written blob same alike stands current member

end Histories

/-! ### An archive that was rebuilt -/

/-- One word mixed into the state of the hasher. -/
def fxAdd (state word : UInt64) : UInt64 := (state + word) * 0xf1357aea2e62a9c5

/-- The hash of a stamp, from the state of the hasher after its path. -/
def fxStamp (afterPath : UInt64) (stamp : SourcesStamp) : UInt64 :=
  let mixed := fxAdd (fxAdd (fxAdd afterPath stamp.len) stamp.mtime) (if stamp.decompiles then 1 else 0)
  mixed <<< 26 ||| mixed >>> 38

/-- The serializer of layouts of `lib.jar` without types and of answers that `C.m()` records no names;
it fails on all others. -/
def smallHashed : HashedPostcard where
  toPostcard := { smallPostcard with
    encodeSourceIndex := fun blob =>
      if blob.stamp.path = some "lib.jar" ∧ blob.entries = [] then
        some (varint 5 blob.formatVersion.toNat ++
          ([1, 7, 108, 105, 98, 46, 106, 97, 114] ++
            (varint 10 blob.stamp.len.toNat ++
              (varint 10 blob.stamp.mtime.toNat ++ [if blob.stamp.decompiles then 1 else 0, 0]))))
      else none
    hashStamp := fxStamp 0 }
  decodeSourceIndexBlob bytes :=
    match readVarint 5 bytes with
    | some (version, 1 :: 7 :: 108 :: 105 :: 98 :: 46 :: 106 :: 97 :: 114 :: rest) =>
        match readVarint 10 rest with
        | some (len, rest) =>
            match readVarint 10 rest with
            | some (mtime, [decompiles, 0]) =>
                some { formatVersion := UInt32.ofNat version, entries := [],
                       stamp := ⟨some "lib.jar", UInt64.ofNat len, UInt64.ofNat mtime,
                         decompiles == 1⟩ }
            | _ => none
        | none => none
    | _ => none
  encodeParams blob :=
    if blob.class_ = "C" ∧ blob.method = "m" ∧ blob.descriptor = "()V" ∧ blob.names = none then
      some (varint 5 blob.formatVersion.toNat ++ [1, 67, 1, 109, 3, 40, 41, 86, 0])
    else none
  decodeParamsBlob bytes :=
    match readVarint 5 bytes with
    | some (version, [1, 67, 1, 109, 3, 40, 41, 86, 0]) =>
        some ⟨UInt32.ofNat version, "C", "m", "()V", none⟩
    | _ => none
  hashMember _ _ _ := 7

theorem smallHashed_lossless : Lossless smallHashed where
  sourceIndex := by
    intro ⟨version, ⟨path, len, mtime, decompiles⟩, entries⟩ bytes encoded
    simp only [smallHashed] at encoded
    split at encoded
    · rename_i small
      obtain ⟨rfl, rfl⟩ := small
      obtain rfl := Option.some.inj encoded
      have fitsVersion : version.toNat < 128 ^ 5 := Nat.lt_of_lt_of_le version.toNat_lt (by decide)
      have fitsLen : len.toNat < 128 ^ 10 := Nat.lt_of_lt_of_le len.toNat_lt (by decide)
      have fitsMtime : mtime.toNat < 128 ^ 10 := Nat.lt_of_lt_of_le mtime.toNat_lt (by decide)
      simp only [smallHashed, readVarint_varint 5 version.toNat _ fitsVersion (by decide),
        List.cons_append, List.nil_append, readVarint_varint 10 len.toNat _ fitsLen (by decide),
        readVarint_varint 10 mtime.toNat _ fitsMtime (by decide), UInt32.ofNat_toNat,
        UInt64.ofNat_toNat]
      cases decompiles <;> rfl
    · cases encoded
  params := by
    intro ⟨version, class_, method, descriptor, names⟩ bytes encoded
    simp only [smallHashed] at encoded
    split at encoded
    · rename_i small
      obtain ⟨rfl, rfl, rfl, rfl⟩ := small
      obtain rfl := Option.some.inj encoded
      have fits : version.toNat < 128 ^ 5 := Nat.lt_of_lt_of_le version.toNat_lt (by decide)
      simp only [smallHashed, readVarint_varint 5 version.toNat _ fits (by decide),
        UInt32.ofNat_toNat]
    · cases encoded

/-- The archive of the sources of a library. -/
def builtStamp : SourcesStamp := ⟨some "lib.jar", 1000000, 1300000000, false⟩

/-- The archive built again, later and longer. The hash is the same: 6005432747 times the multiplier of
the hasher is 408204393 short of 2^64. -/
def rebuiltStamp : SourcesStamp := ⟨some "lib.jar", 6006432747, 1708204393, false⟩

/-- A layout and an answer, both for the first archive. -/
def builtHistory : List CacheWrite :=
  [.sourceIndex 7 ⟨cacheFormatVersion, builtStamp, []⟩,
    .params 7 builtStamp ⟨cacheFormatVersion, "C", "m", "()V", none⟩]

/-- For the archive they were written for, the layout and the answer are served. -/
theorem built_archive_served :
    ServesIndex smallHashed builtHistory 7 builtStamp ∧
      ServesParams smallHashed builtHistory 7 builtStamp "C" "m" "()V" := by
  have served := served_iff smallHashed smallHashed_lossless builtHistory 7 builtStamp "C" "m" "()V"
  refine ⟨served.1.mpr ?_, served.2.mpr ?_⟩
  · intro blob stands _ _
    have standing : standingIndex smallHashed builtHistory 7 =
        some ⟨cacheFormatVersion, builtStamp, []⟩ := by rfl
    rw [standing] at stands
    obtain rfl := Option.some.inj stands
    rfl
  · intro written blob other _ stands _ _
    have standing : standingParams smallHashed builtHistory 7
        (paramsHash smallHashed builtStamp "C" "m" "()V") =
        some (builtStamp, ⟨cacheFormatVersion, "C", "m", "()V", none⟩) := by rfl
    rw [standing] at stands
    obtain ⟨rfl, -⟩ := Prod.mk.inj (Option.some.inj stands)
    exact absurd rfl other

/-- They are served for the archive built again, too. -/
theorem rebuilt_archive_served :
    ¬ ServesIndex smallHashed builtHistory 7 rebuiltStamp ∧
      ¬ ServesParams smallHashed builtHistory 7 rebuiltStamp "C" "m" "()V" := by
  constructor
  · intro serves
    have read : readSourceIndex smallHashed (afterWrites smallHashed builtHistory) 7 rebuiltStamp =
        some ⟨cacheFormatVersion, builtStamp, []⟩ := by rfl
    exact absurd (serves _ read).2 (by decide)
  · intro serves
    have read : readParams smallHashed (afterWrites smallHashed builtHistory) 7 rebuiltStamp "C" "m"
        "()V" = some ⟨cacheFormatVersion, "C", "m", "()V", none⟩ := by rfl
    have written := (serves _ read).1
    rcases List.mem_cons.mp written with first | later
    · cases first
    · have second := List.mem_singleton.mp later
      exact absurd (CacheWrite.params.inj second).2.1 (by decide)

end CaffeineLs.Hir
