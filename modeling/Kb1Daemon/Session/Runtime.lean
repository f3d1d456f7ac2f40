import Kb1Daemon.Foundation.JsString

/-! # The libraries a document session runs on

A session keeps its text in a Yjs document and compares file contents by their
SHA-256 digest. Both libraries enter the model through the functions the session
calls and the documented behaviour it relies on: inserting and deleting act on
the text as on a string, applying the delta of two texts gives the second one,
and a transaction that fires no update event leaves the text as it was. Nothing
is assumed of the digests, of the effect of a remote update on the text, or of
how much of a stored state a failing restore applies.
-/

namespace Kb1Daemon

/-- The Yjs document operations and the digest a session uses. -/
structure Runtime where
  /-- A Yjs document. -/
  Doc : Type
  /-- An encoded update a client sends. -/
  Update : Type
  /-- The attribution an update's origin carries. -/
  Attribution : Type
  /-- `new Y.Doc()`. -/
  emptyDoc : Doc
  /-- `doc.getText('markdown').toString()`. -/
  text : Doc → JsString
  /-- `Y.applyUpdate(doc, update)`. -/
  applyUpdate : Doc → Update → Doc
  /-- Applying the update fires the document's update event. -/
  firesUpdate : Doc → Update → Bool
  /-- `text.applyDelta(createFastDiffYTextDelta(current, next))`. -/
  applyDelta : Doc → JsString → Doc
  /-- `text.insert(index, content)`. -/
  insert : Doc → Nat → JsString → Doc
  /-- `text.delete(index, length)`. -/
  delete : Doc → Nat → Nat → Doc
  /-- `Y.encodeStateVector(doc)` in base64. -/
  encodeStateVector : Doc → JsString
  /-- `Y.encodeStateAsUpdate(doc)` in base64. -/
  encodeState : Doc → JsString
  /-- `Y.applyUpdate` of a stored base64 state: the document afterwards, and
  whether the call threw. -/
  restoreState : Doc → JsString → Doc × Bool
  /-- The SHA-256 digest of a content, in hexadecimal. -/
  hashContent : JsString → JsString
  text_emptyDoc : text emptyDoc = []
  text_silent : ∀ doc update, firesUpdate doc update = false →
    text (applyUpdate doc update) = text doc
  text_applyDelta : ∀ doc next, text (applyDelta doc next) = next
  text_insert : ∀ doc index content, index ≤ (text doc).length →
    text (insert doc index content) =
      (text doc).take index ++ content ++ (text doc).drop index
  text_delete : ∀ doc index length,
    text (delete doc index length) = (text doc).take index ++ (text doc).drop (index + length)

namespace Runtime

variable (R : Runtime)

attribute [simp] text_emptyDoc text_applyDelta

/-- Inserting at the start puts the content before the text. -/
@[simp] theorem text_insert_zero (doc : R.Doc) (content : JsString) :
    R.text (R.insert doc 0 content) = content ++ R.text doc := by
  rw [R.text_insert doc 0 content (Nat.zero_le _)]
  simp

/-- Deleting everything leaves the empty text. -/
@[simp] theorem text_delete_all (doc : R.Doc) :
    R.text (R.delete doc 0 (R.text doc).length) = [] := by
  rw [R.text_delete]
  simp

/-- `text.delete(0, text.length); text.insert(0, content)`. -/
def replaceText (doc : R.Doc) (content : JsString) : R.Doc :=
  R.insert (R.delete doc 0 (R.text doc).length) 0 content

@[simp] theorem text_replaceText (doc : R.Doc) (content : JsString) :
    R.text (R.replaceText doc content) = content := by
  simp [replaceText]

end Runtime

end Kb1Daemon
