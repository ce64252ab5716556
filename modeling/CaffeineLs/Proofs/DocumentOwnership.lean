/-
Module: CaffeineLs.Proofs.DocumentOwnership
Purpose: When the contents of a path are the client's text while a document is open there, and what the
  loader read after it is closed.
Trusted boundary: none
Main exports: openText, delivered, Possible
-/
import CaffeineLs.Server.OpenDocuments
import CaffeineLs.Proofs.DocumentChanges

namespace CaffeineLs.Server.OpenDocuments

open SourceText KeyedStore Document Reactive

variable {Uri Path : Type}

abbrev Past (Uri Path : Type) := History (Input Uri Path) (Output Path)

/-! ### What the client and the loader said -/

section Said

variable (places : Places Uri Path) (indexer : LineIndexer) (encoding : PositionEncoding)

/-- The uri is one of the file at the path, and no view. -/
def FileAt (uri : Uri) (path : Path) : Prop :=
  places.viewVfsPath uri = none ∧ places.vfsPath uri = some path

/-- The path of the document, whether a view or not. -/
def documentPath (uri : Uri) : Option Path :=
  (places.viewVfsPath uri).or (places.vfsPath uri)

section Text

variable [DecidableEq Uri]

/-- The client's text of a document while it is open: the one it opened it with, changed by all its
changes since. -/
def openText (uri : Uri) : Past Uri Path → Option Text
  | [] => none
  | step :: earlier =>
      match step.input with
      | .didOpen other _ text => if other = uri then some text else openText uri earlier
      | .didChange other _ changes =>
          if other = uri then applyEach indexer encoding (openText uri earlier) changes
          else openText uri earlier
      | .didClose other => if other = uri then none else openText uri earlier
      | _ => openText uri earlier

def WasOpened (uri : Uri) (past : Past Uri Path) : Prop :=
  ∃ step ∈ past, ∃ version text, step.input = .didOpen uri version text

/-- A document was open at the path, and none is any more. -/
def Closed (past : Past Uri Path) (path : Path) : Prop :=
  (∃ uri, FileAt places uri path ∧ WasOpened uri past) ∧
    ∀ uri, FileAt places uri path → openText indexer encoding uri past = none

end Text

instance [DecidableEq Path] (uri : Uri) (path : Path) : Decidable (FileAt places uri path) :=
  inferInstanceAs (Decidable (_ ∧ _))

def LibraryFileRef.Writes (path : Path) : LibraryFileRef Path → Prop
  | .source other entry => other = path ∧ entry.isSome
  | .decompile _ => False

variable [DecidableEq Path]

instance (path : Path) : (file : LibraryFileRef Path) → Decidable (file.Writes path)
  | .source _ _ => inferInstanceAs (Decidable (_ ∧ _))
  | .decompile _ => inferInstanceAs (Decidable False)

/-- What the loader delivered for the path last, since a document was closed there and since library
files were written there. -/
def delivered (path : Path) : Past Uri Path → Option (Option Bytes)
  | [] => none
  | step :: earlier =>
      match step.input with
      | .loaded files => (lastWrite path files).or (delivered path earlier)
      | .changed files => (lastWrite path files).or (delivered path earlier)
      | .didClose uri => if FileAt places uri path then none else delivered path earlier
      | .loadLibraryFiles files =>
          if ∃ file ∈ files, file.Writes path then none else delivered path earlier
      | .libraryDecompiled files =>
          if ∃ file ∈ files, file.1 = path then none else delivered path earlier
      | _ => delivered path earlier

end Said

section Effects

variable {vfs : Vfs Path} {places : Places Uri Path} {past : Past Uri Path}
variable {s : DocumentServer Path vfs}

/-! ### What the steps leave at a path -/

theorem documentPath_of_fileAt {uri : Uri} {path : Path} (at_ : FileAt places uri path) :
    documentPath places uri = some path := by
  obtain ⟨noView, file⟩ := at_
  simp [documentPath, noView, file]

theorem wasOpened_of_quiet {step : Step (Input Uri Path) (Output Path)} {uri : Uri}
    (opened : WasOpened uri (step :: past))
    (quiet : ∀ version text, step.input ≠ .didOpen uri version text) : WasOpened uri past := by
  obtain ⟨found, member, version, text, input⟩ := opened
  rcases List.mem_cons.mp member with rfl | member
  · exact absurd input (quiet version text)
  · exact ⟨found, member, version, text, input⟩

theorem loadSources_memDocs (files : List (LibraryFileRef Path)) :
    (s.loadSources files).memDocs = s.memDocs := by
  induction files generalizing s with
  | nil => rfl
  | cons file rest ih =>
      cases file with
      | decompile path => exact ih
      | source path entry =>
          simp only [DocumentServer.loadSources]
          split
          · exact ih
          · cases entry with
            | none => exact ih
            | some bytes => exact ih

theorem libraryDecompiled_memDocs (files : List (Path × Bytes)) :
    (s.libraryDecompiled files).memDocs = s.memDocs := by
  induction files generalizing s with
  | nil => rfl
  | cons file rest ih => exact ih

/-- Library sources are written only where nothing is. -/
theorem read_loadSources (lawful : vfs.Lawful none) {path : Path}
    {files : List (LibraryFileRef Path)}
    (kept : s.exists_ path = true ∨ ∀ file ∈ files, ¬ file.Writes path) :
    vfs.read (s.loadSources files).files path = vfs.read s.files path := by
  induction files generalizing s with
  | nil => rfl
  | cons file rest ih =>
      have later : s.exists_ path = true ∨ ∀ file ∈ rest, ¬ file.Writes path :=
        kept.imp_right fun none_ file member => none_ file (List.mem_cons_of_mem _ member)
      cases file with
      | decompile other => exact ih later
      | source other entry =>
          simp only [DocumentServer.loadSources]
          by_cases there : s.exists_ other
          · rw [if_pos there]
            exact ih later
          · rw [if_neg there]
            cases entry with
            | none => exact ih later
            | some bytes =>
                have elsewhere : path ≠ other := by
                  rintro rfl
                  rcases kept with present | none_
                  · exact there present
                  · exact none_ _ List.mem_cons_self ⟨rfl, rfl⟩
                have same : vfs.read (s.setFileContents other (some bytes)).files path =
                    vfs.read s.files path :=
                  lawful.read_write_other _ _ elsewhere
                rw [← same]
                apply ih
                apply later.imp_left
                intro present
                rw [DocumentServer.exists_, same]
                exact present

theorem read_libraryDecompiled (lawful : vfs.Lawful none) {path : Path}
    {files : List (Path × Bytes)} (elsewhere : ∀ file ∈ files, file.1 ≠ path) :
    vfs.read (s.libraryDecompiled files).files path = vfs.read s.files path := by
  induction files generalizing s with
  | nil => rfl
  | cons file rest ih =>
      obtain ⟨here, later⟩ := List.forall_mem_cons.mp elsewhere
      exact (ih later).trans (lawful.read_write_other _ _ (Ne.symm here))

/-- What the loader delivered last is left at a path, unless it is not taken from the loader. -/
theorem read_handleVfsTask [DecidableEq Path] (lawful : vfs.Lawful none)
    (files : List (Path × Option Bytes)) (path : Path) :
    vfs.read (s.handleVfsTask places files).files path =
      if s.takesFromLoader places path then (lastWrite path files).getD (vfs.read s.files path)
      else vfs.read s.files path :=
  lawful.read_writeWhere _ _ _ _

end Effects

section Ownership

variable [DecidableEq Uri] [DecidableEq Path] {vfs : Vfs Path}
variable (places : Places Uri Path) (indexer : LineIndexer) (encoding : PositionEncoding)

/-- The client opens a document that is not open, and changes and closes one that is; each of its changes
is for characters of the text. -/
def Possible (past : Past Uri Path) (_ : DocumentServer Path vfs) : Input Uri Path → Prop
  | .didOpen uri _ _ => openText indexer encoding uri past = none
  | .didChange uri _ changes =>
      openText indexer encoding uri past ≠ none ∧
        applyEach indexer encoding (openText indexer encoding uri past) changes ≠ none
  | .didClose uri => openText indexer encoding uri past ≠ none
  | _ => True

/-- The contents of the loader are for a path that no rules ignore and no open view is of. -/
def Rereads (past : Past Uri Path) (s : DocumentServer Path vfs)
    (files : List (Path × Option Bytes)) : Prop :=
  ∀ file ∈ files, Closed places indexer encoding past file.1 →
    ignoredByOwningRoot places s.sourceRootMatchers file.1 = false ∧
      ∀ uri, documentPath places uri = some file.1 → openText indexer encoding uri past = none

/-- No other document is open at the path of one that is opened. The ranges of a change are read with a
valid line index. A path that the loader reads again after it was closed is not ignored and no open view
is of it. No decompiled file is written over an open document. -/
def Undisturbed (past : Past Uri Path) (s : DocumentServer Path vfs) : Input Uri Path → Prop
  | .didOpen uri _ _ =>
      ∀ other path, documentPath places uri = some path → documentPath places other = some path →
        openText indexer encoding other past = none
  | .didChange uri _ changes =>
      places.viewVfsPath uri = none →
        LinesValid 4294967295 none (lastWholeDocument [] changes.reverse).1.reverse
  | .loaded files => Rereads places indexer encoding past s files
  | .changed files => Rereads places indexer encoding past s files
  | .libraryDecompiled files =>
      ∀ file ∈ files, ∀ uri, FileAt places uri file.1 → openText indexer encoding uri past = none
  | _ => True

/-- A path holds the client's text while a document is open there that is no view. -/
def ClientOwns (past : Past Uri Path) (s : DocumentServer Path vfs) : Prop :=
  ∀ uri path text, FileAt places uri path → openText indexer encoding uri past = some text →
    vfs.read s.files path = some (intoBytes text)

/-- A path whose document was closed holds what the loader delivered for it since. -/
def LoaderOwns (past : Past Uri Path) (s : DocumentServer Path vfs) : Prop :=
  ∀ path contents, Closed places indexer encoding past path →
    delivered places path past = some contents → vfs.read s.files path = contents

/-- Besides, an open document is remembered with the client's text, only open documents are, and no two
are open at one path. -/
structure Owned (past : Past Uri Path) (s : DocumentServer Path vfs) : Prop where
  client : ClientOwns places indexer encoding past s
  loader : LoaderOwns places indexer encoding past s
  remembered : ∀ uri path text, FileAt places uri path →
    openText indexer encoding uri past = some text → ∃ version, s.memDocs path = some ⟨version, text⟩
  only_open : ∀ path, s.memDocs path ≠ none →
    ∃ uri, documentPath places uri = some path ∧ openText indexer encoding uri past ≠ none
  unshared : ∀ one two path, openText indexer encoding one past ≠ none →
    openText indexer encoding two past ≠ none → documentPath places one = some path →
    documentPath places two = some path → one = two

variable {places indexer encoding} {past : Past Uri Path} {s : DocumentServer Path vfs}

/-! ### Steps that no document takes part in -/

/-- A step that opens, changes and closes nothing keeps the ownership, as long as it keeps the contents
where a document is open and where one was closed. -/
theorem Owned.quiet (owned : Owned places indexer encoding past s)
    {step : Step (Input Uri Path) (Output Path)} {s' : DocumentServer Path vfs}
    (same : ∀ uri, openText indexer encoding uri (step :: past) = openText indexer encoding uri past)
    (quiet : ∀ uri version text, step.input ≠ .didOpen uri version text)
    (docs : s'.memDocs = s.memDocs)
    (kept : ∀ path, s.memDocs path ≠ none → (∃ uri, FileAt places uri path ∧
      openText indexer encoding uri past ≠ none) →
      vfs.read s.files path ≠ none → vfs.read s'.files path = vfs.read s.files path)
    (loader : ∀ path contents, Closed places indexer encoding past path →
      delivered places path (step :: past) = some contents → vfs.read s'.files path = contents) :
    Owned places indexer encoding (step :: past) s' where
  client uri path text at_ opened := by
    rw [same] at opened
    obtain ⟨version, document⟩ := owned.remembered uri path text at_ opened
    have contents := owned.client uri path text at_ opened
    rw [kept path (by simp [document]) ⟨uri, at_, by simp [opened]⟩ (by simp [contents])]
    exact contents
  loader path contents closed := by
    apply loader
    obtain ⟨⟨uri, at_, opened⟩, none_⟩ := closed
    refine ⟨⟨uri, at_, wasOpened_of_quiet opened (quiet uri)⟩, ?_⟩
    intro other at_
    rw [← same]
    exact none_ other at_
  remembered uri path text at_ opened := by
    rw [docs]
    rw [same] at opened
    exact owned.remembered uri path text at_ opened
  only_open path document := by
    rw [docs] at document
    obtain ⟨uri, at_, opened⟩ := owned.only_open path document
    exact ⟨uri, at_, by rwa [same]⟩
  unshared one two path first second := by
    rw [same] at first second
    exact owned.unshared one two path first second

theorem Owned.handleVfsTask (lawful : vfs.Lawful none)
    (owned : Owned places indexer encoding past s) {files : List (Path × Option Bytes)}
    {step : Step (Input Uri Path) (Output Path)}
    (message : step.input = .loaded files ∨ step.input = .changed files)
    (rereads : Rereads places indexer encoding past s files) :
    Owned places indexer encoding (step :: past) (s.handleVfsTask places files) := by
  have heard : ∀ path, delivered places path (step :: past) =
      (lastWrite path files).or (delivered places path past) := by
    rcases message with input | input <;> simp [delivered, input]
  apply owned.quiet
  · rcases message with input | input <;> simp [openText, input]
  · rcases message with input | input <;> simp [input]
  · rfl
  · intro path document _ _
    have skipped : s.takesFromLoader places path = false := by
      simp [DocumentServer.takesFromLoader, Option.isSome_iff_ne_none.mpr document]
    simp [read_handleVfsTask lawful, skipped]
  · intro path contents closed last
    rw [heard] at last
    rw [read_handleVfsTask lawful]
    cases found : lastWrite path files with
    | none =>
        rw [found, Option.none_or] at last
        simpa using owned.loader path contents closed last
    | some read =>
        have listed : ∃ file ∈ files, file.1 = path := by
          by_contra absent
          have unread : lastWrite path files = none := by
            apply lastWrite_eq_none_iff.mpr
            intro file member same
            exact absent ⟨file, member, same⟩
          simp [unread] at found
        obtain ⟨file, member, rfl⟩ := listed
        obtain ⟨unignored, unopened⟩ := rereads file member closed
        have free : s.memDocs file.1 = none := by
          by_contra document
          obtain ⟨uri, at_, opened⟩ := owned.only_open _ document
          exact opened (unopened uri at_)
        have taken : s.takesFromLoader places file.1 = true := by
          simp [DocumentServer.takesFromLoader, free, unignored]
        rw [found, Option.some_or] at last
        simpa [taken] using Option.some.inj last

theorem Owned.loadLibraryFiles (lawful : vfs.Lawful none)
    (owned : Owned places indexer encoding past s) {files : List (LibraryFileRef Path)}
    {outputs : List (Output Path)} :
    Owned places indexer encoding (⟨.loadLibraryFiles files, outputs⟩ :: past)
      (s.loadLibraryFiles files).1 := by
  apply owned.quiet
  · intro uri
    rfl
  · nofun
  · exact loadSources_memDocs files
  · intro path _ _ present
    exact read_loadSources lawful (.inl (Option.isSome_iff_ne_none.mpr present))
  · intro path contents closed last
    by_cases written : ∃ file ∈ files, file.Writes path
    · simp [delivered, written] at last
    · have unwritten : ∀ file ∈ files, ¬ file.Writes path :=
        fun file member writes => written ⟨file, member, writes⟩
      have before : delivered places path past = some contents := by
        simpa [delivered, written] using last
      exact (read_loadSources lawful (.inr unwritten)).trans
        (owned.loader path contents closed before)

theorem Owned.libraryDecompiled (lawful : vfs.Lawful none)
    (owned : Owned places indexer encoding past s) {files : List (Path × Bytes)}
    {outputs : List (Output Path)}
    (free : ∀ file ∈ files, ∀ uri, FileAt places uri file.1 →
      openText indexer encoding uri past = none) :
    Owned places indexer encoding (⟨.libraryDecompiled files, outputs⟩ :: past)
      (s.libraryDecompiled files) := by
  apply owned.quiet
  · intro uri
    rfl
  · nofun
  · exact libraryDecompiled_memDocs files
  · intro path _ document _
    obtain ⟨uri, at_, opened⟩ := document
    apply read_libraryDecompiled lawful
    rintro file member rfl
    exact opened (free file member uri at_)
  · intro path contents closed last
    by_cases written : ∃ file ∈ files, file.1 = path
    · simp only [delivered, if_pos written] at last
      cases last
    · have unwritten : ∀ file ∈ files, file.1 ≠ path :=
        fun file member same => written ⟨file, member, same⟩
      have before : delivered places path past = some contents := by
        simp only [delivered, if_neg written] at last
        exact last
      exact (read_libraryDecompiled lawful unwritten).trans
        (owned.loader path contents closed before)

theorem Owned.workspaceLoaded (owned : Owned places indexer encoding past s)
    {matchers : List (Path × (Path → Bool))} {outputs : List (Output Path)} :
    Owned places indexer encoding (⟨.workspaceLoaded matchers, outputs⟩ :: past)
      { s with sourceRootMatchers := matchers } := by
  apply owned.quiet
  · intro uri
    rfl
  · nofun
  · rfl
  · intro path _ _ _
    rfl
  · intro path contents closed last
    exact owned.loader path contents closed last

/-! ### Steps of a document -/

/-- A step of one document, at whose path no other one is open, keeps the ownership if it keeps what is
elsewhere and leaves the client's text at its own path. -/
theorem Owned.document (owned : Owned places indexer encoding past s) (uri : Uri)
    {step : Step (Input Uri Path) (Output Path)} {s' : DocumentServer Path vfs}
    (others : ∀ other, other ≠ uri →
      openText indexer encoding other (step :: past) = openText indexer encoding other past)
    (alone : ∀ other path, other ≠ uri → openText indexer encoding other past ≠ none →
      documentPath places other = some path → documentPath places uri ≠ some path)
    (opened : ∀ other, other ≠ uri → WasOpened other (step :: past) → WasOpened other past)
    (heard : ∀ path, ¬ FileAt places uri path →
      delivered places path (step :: past) = delivered places path past)
    (docs : ∀ path, documentPath places uri ≠ some path → s'.memDocs path = s.memDocs path)
    (files : ∀ path, ¬ FileAt places uri path → vfs.read s'.files path = vfs.read s.files path)
    (mine : ∀ path text, FileAt places uri path →
      openText indexer encoding uri (step :: past) = some text →
      vfs.read s'.files path = some (intoBytes text) ∧
        ∃ version, s'.memDocs path = some ⟨version, text⟩)
    (released : ∀ path, documentPath places uri = some path → s'.memDocs path ≠ none →
      openText indexer encoding uri (step :: past) ≠ none)
    (unheard : ∀ path, FileAt places uri path →
      openText indexer encoding uri (step :: past) = none →
      delivered places path (step :: past) = none) :
    Owned places indexer encoding (step :: past) s' := by
  have apart : ∀ other path, other ≠ uri → FileAt places other path →
      openText indexer encoding other past ≠ none → documentPath places uri ≠ some path :=
    fun other path distinct at_ isOpen => alone other path distinct isOpen (documentPath_of_fileAt at_)
  constructor
  case client =>
    intro other path text at_ isOpen
    by_cases self : other = uri
    · subst self
      exact (mine path text at_ isOpen).1
    · rw [others other self] at isOpen
      have away := apart other path self at_ (by simp [isOpen])
      rw [files path fun here => away (documentPath_of_fileAt here)]
      exact owned.client other path text at_ isOpen
  case loader =>
    intro path contents closed last
    obtain ⟨⟨other, at_, was⟩, none_⟩ := closed
    by_cases here : FileAt places uri path
    · rw [unheard path here (none_ uri here)] at last
      cases last
    · have away : ∀ other, FileAt places other path → other ≠ uri := by
        rintro other at_ rfl
        exact here at_
      rw [files path here]
      apply owned.loader path contents
      · refine ⟨⟨other, at_, opened other (away other at_) was⟩, ?_⟩
        intro other at_
        rw [← others other (away other at_)]
        exact none_ other at_
      · rw [← heard path here]
        exact last
  case remembered =>
    intro other path text at_ isOpen
    by_cases self : other = uri
    · subst self
      exact (mine path text at_ isOpen).2
    · rw [others other self] at isOpen
      rw [docs path (apart other path self at_ (by simp [isOpen]))]
      exact owned.remembered other path text at_ isOpen
  case only_open =>
    intro path document
    by_cases here : documentPath places uri = some path
    · exact ⟨uri, here, released path here document⟩
    · rw [docs path here] at document
      obtain ⟨other, at_, isOpen⟩ := owned.only_open path document
      have distinct : other ≠ uri := by
        rintro rfl
        exact here at_
      exact ⟨other, at_, by rwa [others other distinct]⟩
  case unshared =>
    intro one two path first second atOne atTwo
    by_cases selfOne : one = uri
    · by_cases selfTwo : two = uri
      · rw [selfOne, selfTwo]
      · rw [others two selfTwo] at second
        subst selfOne
        exact absurd atOne (alone two path selfTwo second atTwo)
    · rw [others one selfOne] at first
      by_cases selfTwo : two = uri
      · subst selfTwo
        exact absurd atTwo (alone one path selfOne first atOne)
      · rw [others two selfTwo] at second
        exact owned.unshared one two path first second atOne atTwo

/-- No other open document is at the path of one that is open. -/
theorem Owned.alone (owned : Owned places indexer encoding past s) {uri : Uri}
    (isOpen : openText indexer encoding uri past ≠ none) (other : Uri) (path : Path)
    (distinct : other ≠ uri) (otherOpen : openText indexer encoding other past ≠ none)
    (at_ : documentPath places other = some path) : documentPath places uri ≠ some path :=
  fun here => distinct (owned.unshared other uri path otherOpen isOpen at_ here)

theorem Owned.onDidOpen (lawful : vfs.Lawful none) (owned : Owned places indexer encoding past s)
    {uri : Uri} {version : Int} {text : Text} {outputs : List (Output Path)}
    (undisturbed : Undisturbed places indexer encoding past s (.didOpen uri version text)) :
    Owned places indexer encoding (⟨.didOpen uri version text, outputs⟩ :: past)
      (s.onDidOpen places uri version text) := by
  have now : openText indexer encoding uri (⟨.didOpen uri version text, outputs⟩ :: past) =
      some text := by simp [openText]
  apply owned.document uri
  case others =>
    intro other distinct
    simp [openText, Ne.symm distinct]
  case alone =>
    intro other path _ isOpen at_ here
    exact isOpen (undisturbed other path here at_)
  case opened =>
    rintro other distinct ⟨step, member, versionThen, textThen, input⟩
    rcases List.mem_cons.mp member with rfl | member
    · cases input
      exact absurd rfl distinct
    · exact ⟨step, member, versionThen, textThen, input⟩
  case heard =>
    intro path _
    rfl
  case docs =>
    intro path away
    unfold DocumentServer.onDidOpen
    cases view : places.viewVfsPath uri with
    | some here =>
        have distinct : path ≠ here := by
          rintro rfl
          simp [documentPath, view] at away
        dsimp only
        split
        · simp [DocumentServer.setDocument, distinct]
        · rfl
    | none =>
        cases file : places.vfsPath uri with
        | none => rfl
        | some here =>
            have distinct : path ≠ here := by
              rintro rfl
              simp [documentPath, view, file] at away
            simp [DocumentServer.setDocument, DocumentServer.setFileContents, distinct]
  case files =>
    intro path away
    unfold DocumentServer.onDidOpen
    cases view : places.viewVfsPath uri with
    | some here =>
        dsimp only
        split <;> rfl
    | none =>
        cases file : places.vfsPath uri with
        | none => rfl
        | some here =>
            have distinct : path ≠ here := by
              rintro rfl
              exact away ⟨view, file⟩
            exact lawful.read_write_other _ _ distinct
  case mine =>
    rintro path current ⟨view, file⟩ isOpen
    rw [now] at isOpen
    obtain rfl := Option.some.inj isOpen
    simp only [DocumentServer.onDidOpen, view, file]
    exact ⟨lawful.read_write_self _ _ _, version,
      by simp [DocumentServer.setDocument, DocumentServer.setFileContents]⟩
  case released => simp [now]
  case unheard =>
    intro _ _ closed
    rw [now] at closed
    cases closed

theorem Owned.onDidChange (lawful : vfs.Lawful none) (documented : indexer.Documented)
    (owned : Owned places indexer encoding past s)
    {uri : Uri} {version : Int} {changes : List ContentChange} {outputs : List (Output Path)}
    (possible : Possible indexer encoding past s (.didChange uri version changes))
    (undisturbed : Undisturbed places indexer encoding past s (.didChange uri version changes)) :
    Owned places indexer encoding (⟨.didChange uri version changes, outputs⟩ :: past)
      (s.onDidChange places indexer encoding uri version changes) := by
  obtain ⟨isOpen, meaningful⟩ := possible
  obtain ⟨text, before⟩ := Option.ne_none_iff_exists'.mp isOpen
  obtain ⟨changed, after⟩ := Option.ne_none_iff_exists'.mp meaningful
  have now : openText indexer encoding uri (⟨.didChange uri version changes, outputs⟩ :: past) =
      some changed := by simpa [openText] using after
  -- What the handler leaves where the document is.
  have applied : ∀ path, FileAt places uri path → ∃ versionThen,
      s.memDocs path = some ⟨versionThen, text⟩ ∧
        applyDocumentChanges indexer encoding text changes = some changed := by
    intro path at_
    obtain ⟨versionThen, document⟩ := owned.remembered uri path text at_ before
    refine ⟨versionThen, document, ?_⟩
    rw [applyDocumentChanges_eq_applyEach documented text changes (undisturbed at_.1), ← before]
    exact after
  apply owned.document uri
  case others =>
    intro other distinct
    simp [openText, Ne.symm distinct]
  case alone => exact owned.alone isOpen
  case opened =>
    intro other _ was
    exact wasOpened_of_quiet was nofun
  case heard =>
    intro path _
    rfl
  case docs =>
    intro path away
    unfold DocumentServer.onDidChange
    cases view : places.viewVfsPath uri with
    | some here => rfl
    | none =>
        cases file : places.vfsPath uri with
        | none => rfl
        | some here =>
            obtain ⟨versionThen, document, made⟩ := applied here ⟨view, file⟩
            have distinct : path ≠ here := by
              rintro rfl
              simp [documentPath, view, file] at away
            simp only [document, made]
            split <;> simp [DocumentServer.setDocument, DocumentServer.setFileContents, distinct]
  case files =>
    intro path away
    unfold DocumentServer.onDidChange
    cases view : places.viewVfsPath uri with
    | some here => rfl
    | none =>
        cases file : places.vfsPath uri with
        | none => rfl
        | some here =>
            obtain ⟨versionThen, document, made⟩ := applied here ⟨view, file⟩
            have distinct : path ≠ here := by
              rintro rfl
              exact away ⟨view, file⟩
            simp only [document, made]
            split
            · rfl
            · exact lawful.read_write_other _ _ distinct
  case mine =>
    intro path current at_ openNow
    rw [now] at openNow
    obtain rfl := Option.some.inj openNow
    obtain ⟨versionThen, document, made⟩ := applied path at_
    have contents := owned.client uri path text at_ before
    obtain ⟨view, file⟩ := at_
    simp only [DocumentServer.onDidChange, view, file, document, made]
    split
    next same =>
      subst same
      exact ⟨contents, version, by simp [DocumentServer.setDocument]⟩
    next =>
      exact ⟨lawful.read_write_self _ _ _, version,
        by simp [DocumentServer.setDocument, DocumentServer.setFileContents]⟩
  case released => simp [now]
  case unheard =>
    intro _ _ closed
    rw [now] at closed
    cases closed

theorem Owned.onDidClose (owned : Owned places indexer encoding past s) {uri : Uri}
    {outputs : List (Output Path)} (isOpen : openText indexer encoding uri past ≠ none) :
    Owned places indexer encoding (⟨.didClose uri, outputs⟩ :: past) (s.onDidClose places uri).1 := by
  have now : openText indexer encoding uri (⟨.didClose uri, outputs⟩ :: past) = none := by
    simp [openText]
  have removed : ∀ path, (s.onDidClose places uri).1.memDocs path =
      if documentPath places uri = some path then none else s.memDocs path := by
    intro path
    unfold DocumentServer.onDidClose documentPath
    cases view : places.viewVfsPath uri with
    | some here => simp [DocumentServer.setDocument, eq_comm]
    | none =>
        cases file : places.vfsPath uri with
        | some here => simp [DocumentServer.setDocument, eq_comm]
        | none => simp
  have kept : (s.onDidClose places uri).1.files = s.files := by
    unfold DocumentServer.onDidClose
    split
    · rfl
    · split <;> rfl
  apply owned.document uri
  case others =>
    intro other distinct
    simp [openText, Ne.symm distinct]
  case alone => exact owned.alone isOpen
  case opened =>
    intro other _ was
    exact wasOpened_of_quiet was nofun
  case heard =>
    intro path away
    simp [delivered, away]
  case docs =>
    intro path away
    rw [removed, if_neg away]
  case files =>
    intro path _
    rw [kept]
  case mine =>
    intro _ _ _ openNow
    rw [now] at openNow
    cases openNow
  case released =>
    intro path here document
    rw [removed, if_pos here] at document
    exact absurd rfl document
  case unheard =>
    intro path at_ _
    simp [delivered, at_]

theorem owned_initial : Owned places indexer encoding [] (initial vfs) where
  client _ _ _ _ isOpen := nomatch isOpen
  loader _ _ closed := by
    obtain ⟨⟨uri, _, step, member, _⟩, _⟩ := closed
    cases member
  remembered _ _ _ _ isOpen := nomatch isOpen
  only_open _ document := absurd rfl document
  unshared _ _ _ isOpen := absurd rfl isOpen

/-- Every step that is possible and disturbs nothing keeps the ownership. -/
theorem Owned.react (lawful : vfs.Lawful none) (documented : indexer.Documented)
    (owned : Owned places indexer encoding past s) {input : Input Uri Path}
    (possible : Possible indexer encoding past s input)
    (undisturbed : Undisturbed places indexer encoding past s input) :
    Owned places indexer encoding
      (⟨input, (s.react places indexer encoding input).2⟩ :: past)
      (s.react places indexer encoding input).1 := by
  cases input with
  | didOpen uri version text => exact owned.onDidOpen lawful undisturbed
  | didChange uri version changes => exact owned.onDidChange lawful documented possible undisturbed
  | didClose uri => exact owned.onDidClose possible
  | loaded files => exact owned.handleVfsTask lawful (.inl rfl) undisturbed
  | changed files => exact owned.handleVfsTask lawful (.inr rfl) undisturbed
  | loadLibraryFiles files => exact owned.loadLibraryFiles lawful
  | libraryDecompiled files => exact owned.libraryDecompiled lawful undisturbed
  | workspaceLoaded matchers => exact owned.workspaceLoaded

/-- In every run whose steps disturb nothing, a path holds the client's text while a document is open
there that is no view, and after it is closed what the loader delivered since. -/
theorem open_documents_owned (places : Places Uri Path) (indexer : LineIndexer)
    (encoding : PositionEncoding) (lawful : vfs.Lawful none) (documented : indexer.Documented)
    {past : Past Uri Path} {s : DocumentServer Path vfs}
    (ran : Run (fun s input => s.react places indexer encoding input)
      (fun past s input => Possible indexer encoding past s input ∧
        Undisturbed places indexer encoding past s input)
      (initial vfs) past s) :
    ClientOwns places indexer encoding past s ∧ LoaderOwns places indexer encoding past s := by
  have owned : Owned places indexer encoding past s := by
    apply ran.invariant owned_initial
    intro past s input owned allowed
    exact owned.react lawful documented allowed.1 allowed.2
  exact ⟨owned.client, owned.loader⟩

end Ownership

/-! ### One workspace -/

/-- Paths as their components, each the path of the uri of the same components; `view` heads the uris of
views. -/
def components : Places (List String) (List String) where
  viewVfsPath
    | "view" :: path => some path
    | _ => none
  vfsPath
    | "view" :: _ => none
    | path => some path
  stripPrefix root path := if root.isPrefixOf path then some (path.drop root.length) else none
  components := List.length

def mapVfs : Vfs (List String) where
  State := List String → Option Bytes
  empty := fun _ => none
  write files path contents := fun other => if other = path then contents else files other
  read files path := files path

theorem mapVfs_lawful : mapVfs.Lawful none where
  read_empty _ := rfl
  read_write_self _ _ _ := if_pos rfl
  read_write_other _ _ _ _ distinct := if_neg distinct

abbrev reactHere (s : DocumentServer (List String) mapVfs)
    (input : Input (List String) (List String)) :
    DocumentServer (List String) mapVfs × List (Output (List String)) :=
  s.react components textIndexer .utf8 input

def main : List String := ["ws", "Main.java"]

def generated : List String := ["ws", "build", "Gen.java"]

/-- A document that is opened, changed and closed while the loader reads its path. -/
def editedOnce : List (Input (List String) (List String)) :=
  [.loaded [(main, some (intoBytes ['a']))], .didOpen main 1 ['b'],
    .changed [(main, some (intoBytes ['c']))], .didChange main 2 [.wholeDocument ['d']],
    .didClose main, .changed [(main, some (intoBytes ['d', '\n']))]]

/-- A file of the library cache that is opened by its own uri while it is decompiled. -/
def openedInCache : List (Input (List String) (List String)) :=
  [.loadLibraryFiles [.decompile main], .didOpen main 1 ['b'],
    .libraryDecompiled [(main, intoBytes ['c'])]]

/-- A generated file under an ignored directory that is opened and closed. -/
def openedIgnored : List (Input (List String) (List String)) :=
  [.workspaceLoaded [(["ws"], fun path => path.head? == some "build")], .didOpen generated 1 ['a'],
    .didClose generated, .changed [(generated, some (intoBytes ['b']))]]

theorem editedOnce_allowed :
    AllAllowed reactHere (fun past s input => Possible textIndexer .utf8 past s input ∧
      Undisturbed components textIndexer .utf8 past s input) [] (initial mapVfs) editedOnce := by
  refine ⟨⟨trivial, ?unopened⟩, ⟨rfl, ?alone⟩, ⟨trivial, ?isOpen⟩,
    ⟨⟨?changeOpen, ?meaningful⟩, ?lines⟩, ⟨?closeOpen, trivial⟩, ⟨trivial, ?reread⟩, trivial⟩
  case unopened =>
    rintro file _ ⟨⟨uri, _, step, member, _⟩, _⟩
    cases member
  case alone =>
    intro other path _ _
    rfl
  case isOpen =>
    intro file member closed
    rw [List.mem_singleton] at member
    subst member
    exact absurd (closed.2 main ⟨rfl, rfl⟩) (by simp [openText])
  case changeOpen => simp [openText]
  case meaningful => simp [applyEach]
  case lines =>
    intro _
    trivial
  case closeOpen => simp [Possible, openText, applyEach]
  case reread =>
    intro file member _
    rw [List.mem_singleton] at member
    subst member
    refine ⟨by decide, ?_⟩
    intro uri _
    by_cases same : main = uri <;> simp [openText, same]

theorem editedOnce_owned :
    ClientOwns components textIndexer .utf8 (replay reactHere [] (initial mapVfs) editedOnce).1
        (replay reactHere [] (initial mapVfs) editedOnce).2 ∧
      LoaderOwns components textIndexer .utf8 (replay reactHere [] (initial mapVfs) editedOnce).1
        (replay reactHere [] (initial mapVfs) editedOnce).2 :=
  open_documents_owned components textIndexer .utf8 mapVfs_lawful textIndexer_documented
    (run_replay Run.start editedOnce_allowed)

/-- A decompiled file is written over the open document of its path, and what the loader reads of an
ignored path does not replace the text of the document that was closed there. -/
theorem open_documents_not_owned :
    (¬ ∀ past s, Run reactHere (Possible textIndexer .utf8) (initial mapVfs) past s →
      ClientOwns components textIndexer .utf8 past s) ∧
    ¬ ∀ past s, Run reactHere (Possible textIndexer .utf8) (initial mapVfs) past s →
      LoaderOwns components textIndexer .utf8 past s := by
  constructor
  · intro owns
    have allowed : AllAllowed reactHere (Possible textIndexer .utf8) [] (initial mapVfs)
        openedInCache := ⟨trivial, rfl, trivial, trivial⟩
    have held := owns _ _ (run_replay Run.start allowed) main main ['b'] ⟨rfl, rfl⟩
      (by rfl)
    revert held
    decide
  · intro owns
    have allowed : AllAllowed reactHere (Possible textIndexer .utf8) [] (initial mapVfs)
        openedIgnored := ⟨trivial, rfl, by simp [Possible, openText], trivial, trivial⟩
    have closed : Closed components textIndexer .utf8
        (replay reactHere [] (initial mapVfs) openedIgnored).1 generated := by
      refine ⟨⟨generated, ⟨rfl, rfl⟩, _, List.mem_cons_of_mem _ (List.mem_cons_of_mem _
        List.mem_cons_self), 1, ['a'], rfl⟩, ?_⟩
      intro uri _
      by_cases same : generated = uri <;> simp [openedIgnored, replay, openText, same]
    have held := owns _ _ (run_replay Run.start allowed) generated (some (intoBytes ['b'])) closed
      (by rfl)
    revert held
    decide

end CaffeineLs.Server.OpenDocuments
