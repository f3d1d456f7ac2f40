import Kb1Daemon.Foundation.PercentEncoding
import Kb1Daemon.Tunnel.Url

/-! # The pathname of a URL

A reference that begins with a slash is resolved against a base with a special scheme: dot
segments are removed, and what a path does not keep is escaped. The pathname of a reference that
is clean is what comes before its query (`UrlPath.pathname_clean`).
-/

namespace Kb1Daemon

open JsString

namespace UrlPath

open Url (stripped isC0OrSpace)

/-- The bytes that a path does not keep. -/
def inPathSet (byte : UInt8) : Bool :=
  byte ≤ 32 || 127 ≤ byte || byte ∈ ([34, 35, 60, 62, 63, 94, 96, 123, 125] : List UInt8)

def encodeSegment (segment : JsString) : JsString :=
  (Utf8.encode segment).flatMap fun byte =>
    if inPathSet byte then Uri.escapeByte byte else [UInt16.ofNat byte.toNat]

def isSingleDot (segment : JsString) : Bool :=
  segment.map foldUnit ∈ ["." , "%2e"].map units

def isDoubleDot (segment : JsString) : Bool :=
  segment.map foldUnit ∈ ["..", ".%2e", "%2e.", "%2e%2e"].map units

/-- A segment is added to a path; dot segments are carried out, and leave an empty segment at the
end. -/
def addSegment (path : List JsString) (last : Bool) (segment : JsString) : List JsString :=
  if isDoubleDot segment then path.dropLast ++ if last then [[]] else []
  else if isSingleDot segment then path ++ if last then [[]] else []
  else path ++ [encodeSegment segment]

def addSegments (path : List JsString) : List JsString → List JsString
  | [] => path
  | segment :: rest => addSegments (addSegment path rest.isEmpty segment) rest

/-- The pathname of a reference that begins with one slash. -/
def pathname (reference : JsString) : JsString :=
  let path := (stripped reference).takeWhile fun unit => unit ≠ questionMark && unit ≠ hashMark
  let segments :=
    ((path.drop 1).map fun unit => if unit = backslash then slash else unit).splitOn slash
  (addSegments [] segments).flatMap (slash :: ·)

/-- A unit that stands in a path as it is. -/
def isPathUnit (unit : CodeUnit) : Bool :=
  32 < unit && unit < 127 &&
    unit ∉ ([34, 35, 47, 60, 62, 63, 92, 94, 96, 123, 125] : List CodeUnit)

/-- A segment that is no dot segment and stands in a path as it is. -/
structure CleanSegment (segment : JsString) : Prop where
  kept : ∀ unit ∈ segment, isPathUnit unit = true
  single : isSingleDot segment = false
  double : isDoubleDot segment = false

theorem small_of_isPathUnit {unit : CodeUnit} (path : isPathUnit unit = true) :
    unit.toNat < 127 := by
  simp only [isPathUnit, Bool.and_eq_true, decide_eq_true_eq, UInt16.lt_iff_toNat_lt] at path
  exact path.1.2

/-- What holds of every path unit below 127 holds of every path unit. -/
theorem of_isPathUnit (claim : CodeUnit → Prop)
    (small : ∀ value < 127, isPathUnit (UInt16.ofNat value) = true → claim (UInt16.ofNat value))
    {unit : CodeUnit} (path : isPathUnit unit = true) : claim unit := by
  have bound := small_of_isPathUnit path
  rw [← @UInt16.ofNat_toNat unit] at path ⊢
  exact small unit.toNat bound path

theorem encodeSegment_clean {segment : JsString}
    (kept : ∀ unit ∈ segment, isPathUnit unit = true) : encodeSegment segment = segment := by
  induction segment with
  | nil => rfl
  | cons unit segment ih =>
      have path := kept unit List.mem_cons_self
      have rest := ih fun other member => kept other (List.mem_cons_of_mem _ member)
      obtain ⟨high, bytes, outside⟩ := of_isPathUnit
        (fun unit => Json.isHighSurrogate unit = false ∧
          Utf8.bytes (Utf8.unitValue unit) = [UInt8.ofNat unit.toNat] ∧
            inPathSet (UInt8.ofNat unit.toNat) = false) (by decide) path
      have own : encodeSegment [unit] = [unit] := by
        have small := small_of_isPathUnit path
        rw [encodeSegment, Utf8.encode, bytes, List.flatMap_singleton, outside,
          if_neg Bool.false_ne_true, Utf8.toNat_ofNat (by omega), UInt16.ofNat_toNat]
      rw [encodeSegment, ← List.singleton_append, Utf8.encode_append, List.flatMap_append]
      · change encodeSegment [unit] ++ encodeSegment segment = _
        rw [own, rest]
      · intro surrogate
        exact absurd (high.symm.trans surrogate) Bool.false_ne_true

theorem addSegments_clean {segments : List JsString}
    (clean : ∀ segment ∈ segments, CleanSegment segment) (path : List JsString) :
    addSegments path segments = path ++ segments := by
  induction segments generalizing path with
  | nil => exact (List.append_nil path).symm
  | cons segment rest ih =>
      obtain ⟨own, others⟩ := List.forall_mem_cons.mp clean
      rw [addSegments, addSegment, own.double, own.single, if_neg Bool.false_ne_true,
        if_neg Bool.false_ne_true, encodeSegment_clean own.kept, ih others, List.append_assoc]
      rfl

/-- A path of clean segments, with the slash before each. -/
theorem mem_path {segments : List JsString} (clean : ∀ segment ∈ segments, CleanSegment segment)
    {unit : CodeUnit} (member : unit ∈ segments.flatMap (slash :: ·)) :
    unit = slash ∨ isPathUnit unit = true := by
  obtain ⟨segment, listed, inner⟩ := List.mem_flatMap.mp member
  exact (List.mem_cons.mp inner).imp_right ((clean segment listed).kept unit)

/-- A query that is empty or begins with its mark. -/
def IsQuery (query : JsString) : Prop := query = [] ∨ query.head? = some questionMark

/-- What is stripped from the end comes after the last printed unit. -/
theorem reverse_dropWhile_append {strips : CodeUnit → Bool} {mark : CodeUnit}
    (stays : strips mark = false) (front rest : JsString) :
    ((front ++ mark :: rest).reverse.dropWhile strips).reverse =
      front ++ mark :: (rest.reverse.dropWhile strips).reverse := by
  rw [List.reverse_append, List.reverse_cons, List.append_assoc, List.singleton_append,
    List.dropWhile_append]
  split_ifs with none
  · rw [List.isEmpty_iff.mp none, List.dropWhile_cons_of_neg (by rw [stays]; decide),
      List.reverse_cons, List.reverse_reverse, List.reverse_nil]
  · rw [List.reverse_append, List.reverse_cons, List.reverse_reverse, List.append_assoc,
      List.singleton_append]

/-- Nothing of a printed text before a query is stripped. -/
theorem stripped_append {path query : JsString} (some : path ≠ [])
    (printed : ∀ unit ∈ path, isC0OrSpace unit = false) (mark : IsQuery query) :
    ∃ rest, stripped (path ++ query) = path ++ rest ∧ IsQuery rest := by
  have keeps : ∀ unit, isC0OrSpace unit = false → unit ∉ ([9, 10, 13] : List CodeUnit) := by
    intro unit shown control
    have small : ([9, 10, 13] : List CodeUnit).all isC0OrSpace = true := by decide
    exact Bool.false_ne_true (shown.symm.trans (List.all_eq_true.mp small unit control))
  have filtered : path.filter (fun unit => unit ∉ ([9, 10, 13] : List CodeUnit)) = path :=
    List.filter_eq_self.mpr fun unit member => decide_eq_true (keeps unit (printed unit member))
  obtain ⟨first, others, begins⟩ := List.exists_cons_of_ne_nil some
  have front : (path ++ query).dropWhile isC0OrSpace = path ++ query := by
    rw [begins, List.cons_append, List.dropWhile_cons_of_neg]
    rw [printed first (by rw [begins]; exact List.mem_cons_self)]
    exact Bool.false_ne_true
  unfold stripped
  rw [front]
  rcases mark with rfl | marked
  · obtain ⟨init, last, whole⟩ := (List.eq_nil_or_concat path).resolve_left some
    have shown := printed last (by rw [whole]; simp)
    refine ⟨[], ?_, .inl rfl⟩
    rw [List.append_nil]
    have same := reverse_dropWhile_append shown init []
    rw [List.reverse_nil, List.dropWhile_nil, List.reverse_nil, ← List.concat_eq_append, ← whole]
      at same
    rw [same, filtered]
  · obtain ⟨rest, rfl⟩ := List.head?_eq_some_iff.mp marked
    rw [reverse_dropWhile_append (by decide), List.filter_append, filtered,
      List.filter_cons_of_pos (by decide)]
    exact ⟨_, rfl, .inr rfl⟩

theorem flatMap_slash {segments : List JsString} (some : segments ≠ []) :
    segments.flatMap (slash :: ·) = slash :: Segments.joined slash segments := by
  induction segments with
  | nil => exact absurd rfl some
  | cons first rest ih =>
      rw [List.flatMap_cons]
      cases rest with
      | nil => rw [List.flatMap_nil, List.append_nil, Segments.joined_singleton]
      | cons second rest =>
          rw [ih (List.cons_ne_nil _ _), Segments.joined_cons_cons, List.cons_append]

theorem flatMap_ne_nil {segments : List JsString} (some : segments ≠ []) :
    segments.flatMap (slash :: ·) ≠ [] := by
  rw [flatMap_slash some]
  exact List.cons_ne_nil _ _

/-- **Clean pathnames.** The pathname of clean segments before a query is the text of the
segments. -/
theorem pathname_clean {segments : List JsString} (some : segments ≠ [])
    (clean : ∀ segment ∈ segments, CleanSegment segment) {query : JsString}
    (mark : IsQuery query) :
    pathname (segments.flatMap (slash :: ·) ++ query) = segments.flatMap (slash :: ·) := by
  have inside := @mem_path segments clean
  have printed : ∀ unit ∈ segments.flatMap (slash :: ·), isC0OrSpace unit = false := by
    intro unit member
    rcases inside member with rfl | path
    · decide
    · exact of_isPathUnit (fun unit => isC0OrSpace unit = false) (by decide) path
  obtain ⟨rest, same, follows⟩ := stripped_append (flatMap_ne_nil some) printed mark
  have taken : (stripped (segments.flatMap (slash :: ·) ++ query)).takeWhile
      (fun unit => unit ≠ questionMark && unit ≠ hashMark) = segments.flatMap (slash :: ·) := by
    have kept : ∀ unit ∈ segments.flatMap (slash :: ·),
        (unit ≠ questionMark && unit ≠ hashMark) = true := by
      intro unit member
      rcases inside member with rfl | path
      · decide
      · exact of_isPathUnit (fun unit => (unit ≠ questionMark && unit ≠ hashMark) = true)
          (by decide) path
    rw [same, List.takeWhile_append_of_pos kept]
    rcases follows with rfl | marked
    · rw [List.takeWhile_nil, List.append_nil]
    · obtain ⟨others, rfl⟩ := List.head?_eq_some_iff.mp marked
      rw [List.takeWhile_cons_of_neg (by decide), List.append_nil]
  have plain : ((segments.flatMap (slash :: ·)).drop 1).map
      (fun unit => if unit = backslash then slash else unit) = Segments.joined slash segments := by
    rw [flatMap_slash some, List.drop_succ_cons, List.drop_zero]
    refine (List.map_congr_left fun unit member => ?_).trans (List.map_id _)
    have listed : unit ∈ segments.flatMap (slash :: ·) := by
      rw [flatMap_slash some]
      exact List.mem_cons_of_mem _ member
    rcases inside listed with rfl | path
    · rfl
    · have other := of_isPathUnit (fun unit => unit ≠ backslash) (by decide) path
      rw [if_neg other]
      rfl
  have split : (Segments.joined slash segments).splitOn slash = segments := by
    refine List.splitOn_intercalate slash (fun segment member listed => ?_) some
    exact of_isPathUnit (fun unit => unit ≠ slash) (by decide)
      ((clean segment member).kept slash listed) rfl
  unfold pathname
  dsimp only
  rw [taken, plain, split, addSegments_clean clean, List.nil_append]

end UrlPath

end Kb1Daemon
