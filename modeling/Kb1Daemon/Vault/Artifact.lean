import Kb1Daemon.Foundation.HostText
import Kb1Daemon.Vault.Operations

/-! # Kinds of artifacts

The core tells text artifacts from attachments by the extension of a path, and the tools for agents
do so again with a list of their own. They agree on a path unless its last name is a text extension
and nothing more (`isAttachmentPath_agrees_iff`); such a name is no attachment to the tools and no
text to the core.
-/

namespace Kb1Daemon

open JsString

inductive ArtifactKind where
  | text
  | attachment
  deriving DecidableEq, Repr

inductive ArtifactPreview where
  | markdown
  | text
  | image
  | audio
  | video
  | pdf
  | download
  deriving DecidableEq, Repr

structure ArtifactInfo where
  kind : ArtifactKind
  contentType : JsString
  editable : Bool
  preview : ArtifactPreview
  deriving DecidableEq, Repr

/-- The rows of `TEXT_ARTIFACT_EXTENSIONS`. -/
def textArtifactRows : List (String × String × ArtifactPreview) :=
  [(".md", "text/markdown; charset=utf-8", .markdown),
    (".markdown", "text/markdown; charset=utf-8", .markdown),
    (".mdown", "text/markdown; charset=utf-8", .markdown),
    (".mkdn", "text/markdown; charset=utf-8", .markdown),
    (".txt", "text/plain; charset=utf-8", .text),
    (".log", "text/plain; charset=utf-8", .text),
    (".csv", "text/csv; charset=utf-8", .text),
    (".tsv", "text/tab-separated-values; charset=utf-8", .text),
    (".html", "text/html; charset=utf-8", .text),
    (".htm", "text/html; charset=utf-8", .text),
    (".css", "text/css; charset=utf-8", .text),
    (".js", "text/javascript; charset=utf-8", .text),
    (".jsx", "text/javascript; charset=utf-8", .text),
    (".ts", "text/typescript; charset=utf-8", .text),
    (".tsx", "text/typescript; charset=utf-8", .text),
    (".json", "application/json; charset=utf-8", .text),
    (".yml", "application/yaml; charset=utf-8", .text),
    (".yaml", "application/yaml; charset=utf-8", .text),
    (".xml", "application/xml; charset=utf-8", .text),
    (".toml", "application/toml; charset=utf-8", .text),
    (".ini", "text/plain; charset=utf-8", .text),
    (".sh", "text/x-shellscript; charset=utf-8", .text),
    (".py", "text/x-python; charset=utf-8", .text),
    (".rb", "text/x-ruby; charset=utf-8", .text),
    (".go", "text/x-go; charset=utf-8", .text),
    (".rs", "text/x-rust; charset=utf-8", .text),
    (".java", "text/x-java-source; charset=utf-8", .text),
    (".c", "text/x-c; charset=utf-8", .text),
    (".cpp", "text/x-c++; charset=utf-8", .text),
    (".h", "text/x-c; charset=utf-8", .text),
    (".hpp", "text/x-c++; charset=utf-8", .text)]

/-- The rows of `ATTACHMENT_ARTIFACT_EXTENSIONS`. -/
def attachmentArtifactRows : List (String × String × ArtifactPreview) :=
  [(".png", "image/png", .image),
    (".jpg", "image/jpeg", .image),
    (".jpeg", "image/jpeg", .image),
    (".gif", "image/gif", .image),
    (".webp", "image/webp", .image),
    (".avif", "image/avif", .image),
    (".apng", "image/apng", .image),
    (".svg", "application/octet-stream", .download),
    (".mp3", "audio/mpeg", .audio),
    (".wav", "audio/wav", .audio),
    (".ogg", "audio/ogg", .audio),
    (".flac", "audio/flac", .audio),
    (".m4a", "audio/mp4", .audio),
    (".aac", "audio/aac", .audio),
    (".mp4", "video/mp4", .video),
    (".webm", "video/webm", .video),
    (".mov", "video/quicktime", .video),
    (".m4v", "video/x-m4v", .video),
    (".pdf", "application/pdf", .pdf),
    (".zip", "application/zip", .download),
    (".gz", "application/gzip", .download),
    (".tgz", "application/gzip", .download),
    (".tar", "application/x-tar", .download)]

/-- The row of an extension. -/
def artifactRow (rows : List (String × String × ArtifactPreview)) (extension : JsString) :
    Option (JsString × ArtifactPreview) :=
  (rows.find? fun row => units row.1 = extension).map fun row => (units row.2.1, row.2.2)

/-- `leaf.lastIndexOf(".")`. -/
def lastDot (leaf : JsString) : Option Nat :=
  (leaf.reverse.idxOf? dot).map fun back => leaf.length - 1 - back

/-- The text from the last dot on in lower case; nothing if the dot is in front of a place. -/
def extensionFrom (toLowerCase : JsString → JsString) (least : Nat) (leaf : JsString) : JsString :=
  match lastDot leaf with
  | some place => if place < least then [] else toLowerCase (leaf.drop place)
  | none => []

/-- The last name of a path. -/
def leafOf (path : JsString) : JsString := (path.splitOn slash).getLastD []

def classifyArtifactPath (toLowerCase : JsString → JsString) (relPath : JsString) : ArtifactInfo :=
  let extension := extensionFrom toLowerCase 1 (leafOf relPath)
  match artifactRow textArtifactRows extension with
  | some text => ⟨.text, text.1, true, text.2⟩
  | none =>
      match artifactRow attachmentArtifactRows extension with
      | some attachment => ⟨.attachment, attachment.1, false, attachment.2⟩
      | none => ⟨.attachment, units "application/octet-stream", false, .download⟩

/-- The tools' own list. -/
def textAttachmentExtensions : List JsString :=
  [".md", ".markdown", ".mdown", ".mkdn", ".txt", ".log", ".csv", ".tsv", ".html", ".htm", ".css",
    ".js", ".jsx", ".ts", ".tsx", ".json", ".yml", ".yaml", ".xml", ".toml", ".ini", ".sh", ".py",
    ".rb", ".go", ".rs", ".java", ".c", ".cpp", ".h", ".hpp"].map units

def isAttachmentPath (toLowerCase : JsString → JsString) (path : JsString) : Bool :=
  !textAttachmentExtensions.contains (extensionFrom toLowerCase 0 (leafOf path))

section Classification

variable {toLowerCase : JsString → JsString}

/-- The two lists have the same extensions. -/
theorem textAttachmentExtensions_eq :
    textAttachmentExtensions = textArtifactRows.map fun row => units row.1 := rfl

theorem nil_not_mem_textAttachmentExtensions : [] ∉ textAttachmentExtensions := by decide

theorem artifactRow_eq_none_iff {rows : List (String × String × ArtifactPreview)}
    {extension : JsString} :
    artifactRow rows extension = none ↔ extension ∉ rows.map fun row => units row.1 := by
  rw [artifactRow, Option.map_eq_none_iff, List.find?_eq_none]
  constructor
  · intro apart listed
    obtain ⟨row, inside, same⟩ := List.mem_map.mp listed
    exact apart row inside (decide_eq_true same)
  · intro absent row inside same
    exact absent (List.mem_map.mpr ⟨row, inside, of_decide_eq_true same⟩)

theorem editable_iff (path : JsString) :
    (classifyArtifactPath toLowerCase path).editable = true ↔
      extensionFrom toLowerCase 1 (leafOf path) ∈ textAttachmentExtensions := by
  rw [textAttachmentExtensions_eq, ← not_iff_not, ← artifactRow_eq_none_iff, classifyArtifactPath]
  cases artifactRow textArtifactRows (extensionFrom toLowerCase 1 (leafOf path)) with
  | some text => simp
  | none =>
      dsimp only
      cases artifactRow attachmentArtifactRows (extensionFrom toLowerCase 1 (leafOf path)) with
      | some attachment => simp
      | none => simp

theorem lastDot_eq_zero_iff {leaf : JsString} :
    lastDot leaf = some 0 ↔ ∃ rest, leaf = dot :: rest ∧ dot ∉ rest := by
  unfold lastDot
  rw [Option.map_eq_some_iff]
  constructor
  · rintro ⟨back, found, first⟩
    obtain ⟨within, own, earlier⟩ := List.idxOf?_eq_some_iff.mp found
    cases leaf with
    | nil => cases within
    | cons unit rest =>
        rw [List.length_reverse, List.length_cons] at within
        rw [List.length_cons] at first
        obtain rfl : back = rest.length := by omega
        have heads : unit = dot := by simpa using own
        subst heads
        refine ⟨rest, rfl, fun listed => ?_⟩
        obtain ⟨place, inside, same⟩ := List.getElem_of_mem (List.mem_reverse.mpr listed)
        rw [List.length_reverse] at inside
        refine earlier place inside ?_
        simp only [List.reverse_cons]
        rw [List.getElem_append_left (by simpa using inside)]
        exact same
  · rintro ⟨rest, rfl, absent⟩
    refine ⟨rest.length, List.idxOf?_eq_some_iff.mpr ⟨by simp, by simp, ?_⟩, by simp⟩
    intro place inside same
    simp only [List.reverse_cons] at same
    rw [List.getElem_append_left (by simpa using inside)] at same
    refine absent (List.mem_reverse.mp ?_)
    rw [← same]
    exact List.getElem_mem _

end Classification

/-- A dot and an extension of texts, and nothing before them. -/
def IsBareExtension (toLowerCase : JsString → JsString) (leaf : JsString) : Prop :=
  ∃ rest, leaf = dot :: rest ∧ dot ∉ rest ∧ toLowerCase leaf ∈ textAttachmentExtensions

theorem extensionFrom_zero_eq {toLowerCase : JsString → JsString} {leaf : JsString}
    (other : lastDot leaf ≠ some 0) :
    extensionFrom toLowerCase 0 leaf = extensionFrom toLowerCase 1 leaf := by
  unfold extensionFrom
  cases found : lastDot leaf with
  | none => rfl
  | some place =>
      have positive : ¬ place < 1 := by
        rw [found, ne_eq, Option.some_inj] at other
        omega
      dsimp only
      rw [if_neg positive, if_neg (Nat.not_lt_zero place)]

theorem extensionFrom_of_front {toLowerCase : JsString → JsString} {leaf : JsString}
    (front : lastDot leaf = some 0) :
    extensionFrom toLowerCase 0 leaf = toLowerCase leaf ∧ extensionFrom toLowerCase 1 leaf = [] := by
  unfold extensionFrom
  rw [front]
  exact ⟨rfl, rfl⟩

theorem isAttachmentPath_iff {toLowerCase : JsString → JsString} (path : JsString) :
    isAttachmentPath toLowerCase path = true ↔
      extensionFrom toLowerCase 0 (leafOf path) ∉ textAttachmentExtensions := by
  rw [isAttachmentPath, Bool.not_eq_true', ← Bool.not_eq_true, List.contains_iff_mem]

theorem not_isBareExtension_of_valid {toLowerCase : JsString → JsString} {path : JsString}
    (valid : validateVaultPath path .file = true) :
    ¬ IsBareExtension toLowerCase (leafOf path) := by
  rintro ⟨rest, shape, _⟩
  have named : validFilename (leafOf path) = true := by
    obtain ⟨_, _, _, _, _, _, filename⟩ := validateVaultPath_iff.mp valid
    exact filename rfl
  rw [shape, validFilename, List.idxOf?_cons] at named
  simp at named

/-- **Attachments to the tools and to the core.** The tools take a path for an attachment exactly
when the core cannot edit it, unless its last name is a text extension and nothing more; so they
agree on every path that is valid for a file. -/
theorem isAttachmentPath_agrees_iff (toLowerCase : JsString → JsString) (path : JsString) :
    ((isAttachmentPath toLowerCase path = true ↔
        (classifyArtifactPath toLowerCase path).editable = false) ↔
      ¬ IsBareExtension toLowerCase (leafOf path)) ∧
    (validateVaultPath path .file = true →
      (isAttachmentPath toLowerCase path = true ↔
        (classifyArtifactPath toLowerCase path).editable = false)) := by
  have agrees : (isAttachmentPath toLowerCase path = true ↔
        (classifyArtifactPath toLowerCase path).editable = false) ↔
      ¬ IsBareExtension toLowerCase (leafOf path) := by
    rw [isAttachmentPath_iff, ← Bool.not_eq_true, editable_iff]
    by_cases front : lastDot (leafOf path) = some 0
    · obtain ⟨lowered, none⟩ := @extensionFrom_of_front toLowerCase _ front
      obtain ⟨rest, shape, alone⟩ := lastDot_eq_zero_iff.mp front
      rw [lowered, none]
      constructor
      · rintro same ⟨_, _, _, listed⟩
        exact same.mpr nil_not_mem_textAttachmentExtensions listed
      · intro other
        refine iff_of_true (fun listed => ?_) nil_not_mem_textAttachmentExtensions
        exact other ⟨rest, shape, alone, listed⟩
    · rw [extensionFrom_zero_eq front]
      refine iff_of_true Iff.rfl ?_
      rintro ⟨rest, shape, alone, _⟩
      exact front (lastDot_eq_zero_iff.mpr ⟨rest, shape, alone⟩)
  exact ⟨agrees, fun valid => agrees.mpr (not_isBareExtension_of_valid valid)⟩

/-- The artifact `notes/.md` can be neither edited as a note nor uploaded as an attachment. -/
theorem isAttachmentPath_disagrees :
    ¬ ∀ path, validateVaultPath path .file = true ∨ validateVaultPath path .artifact = true →
      (isAttachmentPath HostText.plain.toLowerCase path = true ↔
        (classifyArtifactPath HostText.plain.toLowerCase path).editable = false) := by
  intro agree
  have valid : validateVaultPath (units "notes/.md") .artifact = true := by decide +kernel
  have text : isAttachmentPath HostText.plain.toLowerCase (units "notes/.md") = false := by
    decide +kernel
  have attachment :
      (classifyArtifactPath HostText.plain.toLowerCase (units "notes/.md")).editable = false := by
    decide +kernel
  have same := (agree _ (.inr valid)).mpr attachment
  rw [text] at same
  cases same

/-- The operations take a valid path for editable when it is classified so. -/
theorem isEditableArtifact_eq {host : VaultHost} {path : JsString}
    (empty : host.toLowerCase [] = []) (valid : validateVaultPath path .artifact = true) :
    isEditableArtifact host path = (classifyArtifactPath host.toLowerCase path).editable := by
  have plain : leafOf path ≠ [dot, dot] := by
    obtain ⟨_, _, _, _, _, segments, _⟩ := validateVaultPath_iff.mp valid
    have listed : leafOf path ∈ path.splitOn slash := by
      unfold leafOf
      rw [List.getLastD_eq_getLast?, List.getLast?_eq_some_getLast (List.splitOn_ne_nil slash path)]
      exact List.getLast_mem _
    exact (plainSegment_of_valid (segments _ listed)).2.2
  have extension : artifactExtension host path = extensionFrom host.toLowerCase 1 (leafOf path) := by
    change host.toLowerCase (extname (leafOf path)) = _
    unfold extname extensionFrom lastDot
    cases (leafOf path).reverse.idxOf? dot with
    | none => exact empty
    | some back =>
        dsimp only [Option.map_some]
        by_cases first : (leafOf path).length - 1 - back = 0
        · rw [first, if_pos (by simp), if_pos (by decide), empty]
        · rw [if_neg (by simp [first, plain]), if_neg (by omega)]
  rw [Bool.eq_iff_iff, editable_iff, isEditableArtifact, decide_eq_true_eq, extension]
  exact Iff.rfl

/-- A valid path whose last name is a text extension and nothing more is no attachment to the tools
and not editable to the operations. -/
theorem not_editable_of_isBareExtension {host : VaultHost} {path : JsString}
    (empty : host.toLowerCase [] = []) (valid : validateVaultPath path .artifact = true)
    (bare : IsBareExtension host.toLowerCase (leafOf path)) :
    isAttachmentPath host.toLowerCase path = false ∧ isEditableArtifact host path = false := by
  obtain ⟨rest, shape, alone, listed⟩ := bare
  obtain ⟨lowered, none⟩ := @extensionFrom_of_front host.toLowerCase _
    (lastDot_eq_zero_iff.mpr ⟨rest, shape, alone⟩)
  constructor
  · rw [← Bool.not_eq_true, isAttachmentPath_iff, lowered, not_not]
    exact listed
  · rw [isEditableArtifact_eq empty valid, ← Bool.not_eq_true, editable_iff, none]
    exact nil_not_mem_textAttachmentExtensions

end Kb1Daemon
