import Mathlib
import StaticSite.Preview
import StaticSite.Proofs.Files.Places
import StaticSite.Proofs.Text.Utf8

/-!
# What previewing a site reads

A request is refused if the path of its URL is no text or holds a segment `..`, and for no other
reason.  A path without such a segment leads nowhere but down, so that a file that is read lies
below the root.
-/

namespace StaticSite

/-! ## Paths below a root -/

namespace Path

/-- Whether a path is written as a root with segments behind it.  A slash at the end of the root
counts for the one before the first of these segments. -/
structure Extends (root : Path) (added : List String) (path : Path) : Prop where
  segments : ∃ front, path.segments = front ++ added ∧
    (root.segments = front ∨ root.segments = front ++ [""])
  isAbsolute_eq : path.isAbsolute = root.isAbsolute

theorem extends_join (root : Path) {other : Path} (relative : other.isAbsolute = false) :
    root.Extends other.segments (root.join other) := by
  by_cases isText : root.text = ""
  · obtain ⟨text⟩ := root
    obtain rfl : text = "" := isText
    have joined : (⟨""⟩ : Path).join other = other := by simp [join]
    rw [joined]
    exact ⟨⟨[], rfl, .inr rfl⟩, relative⟩
  · obtain ⟨front, joined, same⟩ := exists_segments_join isText relative
    exact ⟨⟨front, joined, same⟩, isAbsolute_join isText relative⟩

/-- Segments behind a path that extends a root extend the root. -/
theorem Extends.trans {root path last : Path} {added more : List String}
    (first : root.Extends added path) (nonempty : added ≠ []) (second : path.Extends more last) :
    ∃ kept, root.Extends (kept ++ more) last ∧ kept ⊆ added := by
  obtain ⟨⟨front, whole, begins⟩, same⟩ := first
  obtain ⟨⟨other, lastWhole, ends⟩, lastSame⟩ := second
  have absolute := lastSame.trans same
  rcases ends with ends | ends
  · refine ⟨added, ⟨⟨front, ?_, begins⟩, absolute⟩, List.Subset.refl _⟩
    rw [lastWhole, ← ends, whole, List.append_assoc]
  · obtain ⟨kept, final, rfl⟩ := (List.eq_nil_or_concat added).resolve_left nonempty
    rw [whole, List.concat_eq_append, ← List.append_assoc] at ends
    obtain ⟨rfl, -⟩ := List.append_inj' ends rfl
    refine ⟨kept, ⟨⟨front, ?_, begins⟩, absolute⟩, ?_⟩
    · rw [lastWhole, List.append_assoc]
    · simp

end Path

namespace FileTree

variable {files : FileTree} {root path : Path} {added : List String} {there : Place}

/-- Segments without `..` behind a root lead from where the root leads to what lies below. -/
theorem exists_of_locate_extends (extended : root.Extends added path) (nonempty : added ≠ [])
    (plain : ".." ∉ added) (located : files.locate path = .ok there) :
    ∃ place, files.followAll root root.segments = .ok place ∧
      files.entry? place = some .directory ∧ there = place ++ added.filter Path.isStep := by
  obtain ⟨⟨front, whole, begins⟩, same⟩ := extended
  have followed := (locate_eq_ok_iff.mp located).2
  rw [followAll, whole, List.foldlM_append, same, Except.bind_eq_ok_iff] at followed
  obtain ⟨place, toFront, onward⟩ := followed
  have isDirectory : files.entry? place = some .directory := by
    cases added with
    | nil => contradiction
    | cons segment rest =>
        rw [List.foldlM_cons, Except.bind_eq_ok_iff] at onward
        obtain ⟨next, first, -⟩ := onward
        exact (follow_cases first).1
  refine ⟨place, ?_, isDirectory, (foldlM_follow_eq_ok plain onward).1⟩
  rw [followAll]
  rcases begins with begins | begins
  · rwa [begins]
  · have stays : files.follow place "" = .ok place :=
      (follow_eq_ok_iff (by decide)).mpr ⟨isDirectory, .inl ⟨rfl, rfl⟩⟩
    rw [begins, List.foldlM_append]
    exact Except.bind_eq_ok_iff.mpr ⟨place, toFront, Except.bind_eq_ok_iff.mpr ⟨place, stays, rfl⟩⟩

theorem isFile_iff :
    files.isFile path = true ↔
      ∃ place content, files.locate path = .ok place ∧ files.entry? place = some (.file content) := by
  unfold isFile at?
  cases files.locate path with
  | error fault => simp [Except.toOption]
  | ok place =>
      simp only [Except.toOption, Option.bind_some, Except.ok.injEq, exists_and_left, ↓existsAndEq]
      cases files.entry? place with
      | none => simp
      | some entry => cases entry <;> simp

end FileTree

namespace Preview

/-! ## Decoding -/

/-- Whether bytes are decoded to other bytes: each per cent sign with two hexadecimal digits after
it is put as the byte that they tell, and all else is left alone. -/
inductive Decodes : List UInt8 → List UInt8 → Prop
  | nil : Decodes [] []
  | pair {high low highValue lowValue : UInt8} {rest decoded : List UInt8}
      (isHigh : hexValue? high = some highValue) (isLow : hexValue? low = some lowValue)
      (others : Decodes rest decoded) :
      Decodes (0x25 :: high :: low :: rest) ((highValue * 16 + lowValue) :: decoded)
  | plain {byte : UInt8} {rest decoded : List UInt8}
      (noPair : ∀ high low others, byte = 0x25 → rest = high :: low :: others →
        hexValue? high = none ∨ hexValue? low = none)
      (others : Decodes rest decoded) : Decodes (byte :: rest) (byte :: decoded)

theorem decodes_percentDecode (bytes : List UInt8) : Decodes bytes (percentDecode bytes) := by
  fun_induction percentDecode bytes with
  | case1 => exact .nil
  | case2 byte => exact .plain (by simp) .nil
  | case3 byte next => exact .plain (by simp) (.plain (by simp) .nil)
  | case4 byte high low rest highValue lowValue isLow isHigh isSign induction =>
      obtain rfl : byte = 0x25 := by simpa [isPercent] using isSign
      exact .pair isHigh isLow induction
  | case5 byte high low rest noPair induction =>
      refine .plain (fun other next others isSign same => ?_) induction
      obtain ⟨rfl, rfl, -⟩ : high = other ∧ low = next ∧ rest = others := by simpa using same
      rw [isSign] at noPair
      cases isHigh : hexValue? high with
      | none => exact .inl rfl
      | some highValue =>
          refine .inr (Option.eq_none_iff_forall_not_mem.mpr fun lowValue isLow => ?_)
          exact noPair highValue lowValue rfl isHigh isLow

/-- Bytes are decoded in one way only. -/
theorem Decodes.eq_percentDecode {bytes decoded : List UInt8} (decodes : Decodes bytes decoded) :
    decoded = percentDecode bytes := by
  induction decodes with
  | nil => rw [percentDecode]
  | @pair high low highValue lowValue rest decoded isHigh isLow _ induction =>
      rw [percentDecode, isHigh, isLow, induction]
      rfl
  | @plain byte rest decoded noPair _ induction =>
      rw [induction]
      rcases rest with _ | ⟨high, _ | ⟨low, others⟩⟩
      · simp [percentDecode]
      · simp [percentDecode]
      · rw [percentDecode]
        split
        · next isSign isHigh isLow =>
          have isSign : byte = 0x25 := by simpa [isPercent] using isSign
          rcases noPair high low others isSign rfl with none | none <;> simp_all
        · rfl

/-- Whether a URL asks for a text: its part before the first question mark is decoded to the bytes
of this text. -/
def Requests (url text : String) : Prop :=
  ∃ path query bytes, url = path ++ query ∧ '?' ∉ path.toList ∧
    (query = "" ∨ ∃ rest, query = "?" ++ rest) ∧ Decodes path.toUTF8.toList bytes ∧
    text.toUTF8 = bytes.toByteArray

/-- The part of a URL before the first question mark. -/
theorem urlPath_append {path query : String} (noMark : '?' ∉ path.toList)
    (isQuery : query = "" ∨ ∃ rest, query = "?" ++ rest) : urlPath (path ++ query) = path := by
  have passed : ∀ c ∈ path.toList, (c != '?') = true := by
    intro c member
    simpa using fun (isMark : c = '?') => noMark (isMark ▸ member)
  have none : query.toList.takeWhile (· != '?') = [] := by
    rcases isQuery with rfl | ⟨rest, rfl⟩ <;> simp
  rw [urlPath, String.toList_append, List.takeWhile_append_of_pos passed, none, List.append_nil,
    String.ofList_toList]

theorem exists_urlPath_append (url : String) :
    ∃ query, url = urlPath url ++ query ∧ '?' ∉ (urlPath url).toList ∧
      (query = "" ∨ ∃ rest, query = "?" ++ rest) := by
  refine ⟨String.ofList (url.toList.dropWhile (· != '?')), ?_, ?_, ?_⟩
  · apply String.toList_inj.mp
    simp [urlPath, List.takeWhile_append_dropWhile]
  · intro member
    rw [urlPath, String.toList_ofList] at member
    simpa using List.mem_takeWhile_imp member
  · cases rest : url.toList.dropWhile (· != '?') with
    | nil => exact .inl rfl
    | cons c more =>
        have isMark := List.head?_dropWhile_not (· != '?') url.toList
        rw [rest] at isMark
        obtain rfl : c = '?' := by simpa using isMark
        exact .inr ⟨String.ofList more, by apply String.toList_inj.mp; simp⟩

theorem decodedPath?_eq_some_iff {url text : String} :
    decodedPath? url = some text ↔ Requests url text := by
  rw [decodedPath?, fromUTF8?_eq_some_iff]
  constructor
  · intro same
    obtain ⟨query, whole, noMark, isQuery⟩ := exists_urlPath_append url
    exact ⟨_, query, _, whole, noMark, isQuery, decodes_percentDecode _,
      same.trans (ByteArray.ext List.data_toByteArray.symm)⟩
  · rintro ⟨path, query, bytes, rfl, noMark, isQuery, decodes, same⟩
    rw [urlPath_append noMark isQuery, same, decodes.eq_percentDecode]
    exact ByteArray.ext List.data_toByteArray

/-! ## Segments that lead down -/

theorem mem_splitOn_dropWhile {piece : List Char} (nonempty : piece ≠ []) (chars : List Char) :
    piece ∈ (chars.dropWhile (· == '/')).splitOn '/' ↔ piece ∈ chars.splitOn '/' := by
  induction chars with
  | nil => rfl
  | cons c chars induction =>
      by_cases isSlash : c = '/'
      · rw [List.dropWhile_cons_of_pos (by simpa using isSlash), induction,
          List.splitOn_cons_eq_if_modifyHead, if_pos (by simpa using isSlash)]
        simp [nonempty]
      · rw [List.dropWhile_cons_of_neg (by simpa using isSlash)]

theorem mem_splitOn_rdropWhile {piece : List Char} (nonempty : piece ≠ []) (chars : List Char) :
    piece ∈ (chars.rdropWhile (· == '/')).splitOn '/' ↔ piece ∈ chars.splitOn '/' := by
  induction chars using List.reverseRecOn with
  | nil => rfl
  | append_singleton chars c induction =>
      by_cases isSlash : c = '/'
      · rw [List.rdropWhile_concat_pos _ _ _ (by simpa using isSlash), induction, isSlash,
          List.splitOn_append_cons_self]
        simp [nonempty]
      · rw [List.rdropWhile_concat_neg _ _ _ (by simpa using isSlash)]

/-- Slashes around a text matter to none of its segments but empty ones. -/
theorem mem_segments_trimSlashes {segment text : String} (nonempty : segment ≠ "") :
    segment ∈ (⟨trimSlashes text⟩ : Path).segments ↔ segment ∈ (⟨text⟩ : Path).segments := by
  have isPiece (chars : List Char) :
      segment ∈ (chars.splitOn '/').map String.ofList ↔ segment.toList ∈ chars.splitOn '/' := by
    constructor
    · intro member
      obtain ⟨piece, isPiece, rfl⟩ := List.mem_map.mp member
      simpa using isPiece
    · intro member
      exact List.mem_map.mpr ⟨_, member, String.ofList_toList⟩
  have nonempty : segment.toList ≠ [] := by simpa using nonempty
  rw [Path.segments, Path.segments, isPiece, isPiece, trimSlashes, String.toList_ofList]
  exact (mem_splitOn_rdropWhile nonempty _).trans (mem_splitOn_dropWhile nonempty _)

theorem isAbsolute_trimSlashes (text : String) :
    (⟨trimSlashes text⟩ : Path).isAbsolute = false := by
  refine Bool.eq_false_iff.mpr fun absolute => ?_
  rw [Path.isAbsolute, String.startsWith_string_iff] at absolute
  have isFirst : ['/'] <+: (text.toList.dropWhile (· == '/')).rdropWhile (· == '/') := by
    simpa [trimSlashes, List.rdropWhile] using absolute
  obtain ⟨rest, whole⟩ := isFirst.trans (List.rdropWhile_prefix _ _)
  have noSlash := List.head?_dropWhile_not (· == '/') text.toList
  rw [← whole] at noSlash
  simp at noSlash

theorem all_leadsDown_component? {segment : String} :
    (Path.component? segment).all leadsDown = true ↔ segment ≠ ".." := by
  by_cases isParent : segment = ".."
  · subst isParent
    decide
  · rw [Path.component?_of_ne isParent]
    split <;> simp [isParent, leadsDown]

/-- The components of a path lead nowhere but down if there is no `..` among its segments. -/
theorem all_leadsDown_iff {path : Path} (relative : path.isAbsolute = false) :
    path.components.all leadsDown = true ↔ path.IsPlain := by
  obtain ⟨first, rest, segments⟩ := List.exists_cons_of_ne_nil path.segments_ne_nil
  have marks : path.components.all leadsDown = path.marked.all fun mark => mark.1.all leadsDown := by
    rw [Path.components, List.all_filterMap]
    refine congrArg (List.all path.marked) (funext fun mark => ?_)
    cases mark.1 <;> rfl
  have later : ((rest.map fun segment => (Path.component? segment, segment)).all
      fun mark => mark.1.all leadsDown) = true ↔ ".." ∉ rest := by
    simp only [List.all_eq_true, List.forall_mem_map, all_leadsDown_component?]
    exact ⟨fun each member => each _ member rfl, fun none _ member same => none (same ▸ member)⟩
  rw [marks, Path.marked, Path.IsPlain, segments, List.all_cons, Bool.and_eq_true, later,
    List.mem_cons, not_or]
  refine and_congr_left fun _ => ?_
  by_cases isEmpty : first = ""
  · have lone : rest = [] := by
      by_contra more
      exact Bool.eq_false_iff.mp relative
        (Path.isAbsolute_iff.mpr ⟨rest, more, isEmpty ▸ segments⟩)
    simp [isEmpty, lone]
  · by_cases isCurrent : first = "."
    · simp [isCurrent, leadsDown]
    · rw [if_neg (by simpa using isEmpty), if_neg (by simpa using isCurrent),
        all_leadsDown_component?, ne_comm]

/-! ## What is read -/

section

variable {files : FileTree} {root path : Path} {url : String}

theorem locate_ne_badRequest (files : FileTree) (target : Path) :
    locate files target ≠ .badRequest := by
  unfold locate
  split
  · simp
  · split <;> simp

theorem resolve_of_requests {text : String} (requests : Requests url text) :
    resolve files root url =
      if (⟨text⟩ : Path).IsPlain then locate files (root.join ⟨trimSlashes text⟩)
      else .badRequest := by
  have plain : (⟨trimSlashes text⟩ : Path).IsPlain ↔ (⟨text⟩ : Path).IsPlain :=
    not_congr (mem_segments_trimSlashes (by decide))
  simp only [resolve, decodedPath?_eq_some_iff.mpr requests,
    all_leadsDown_iff (isAbsolute_trimSlashes text), plain]

theorem resolve_of_not_requests (none : ∀ text, ¬Requests url text) :
    resolve files root url = .badRequest := by
  have noText : decodedPath? url = .none := by
    refine Option.eq_none_iff_forall_not_mem.mpr fun text decoded => ?_
    exact none text (decodedPath?_eq_some_iff.mp decoded)
  rw [resolve, noText]

/-- A request is refused if its URL asks for no text, or for one with a segment `..`. -/
theorem resolve_eq_badRequest_iff :
    resolve files root url = .badRequest ↔
      (∀ text, ¬Requests url text) ∨
        ∃ text, Requests url text ∧ ".." ∈ (⟨text⟩ : Path).segments := by
  by_cases isText : ∃ text, Requests url text
  · obtain ⟨text, requests⟩ := isText
    have only (other : String) (also : Requests url other) : other = text :=
      Option.some.inj <|
        (decodedPath?_eq_some_iff.mpr also).symm.trans (decodedPath?_eq_some_iff.mpr requests)
    rw [resolve_of_requests requests]
    by_cases plain : (⟨text⟩ : Path).IsPlain
    · rw [if_pos plain]
      refine iff_of_false (locate_ne_badRequest _ _) ?_
      rintro (none | ⟨other, also, parent⟩)
      · exact none text requests
      · exact plain (only other also ▸ parent)
    · rw [if_neg plain]
      exact iff_of_true rfl (.inr ⟨text, requests, not_not.mp plain⟩)
  · have none : ∀ text, ¬Requests url text := not_exists.mp isText
    exact iff_of_true (resolve_of_not_requests none) (.inl none)

/-- What is found below a root is a file there, under the path or in the directory at the path. -/
theorem extends_of_locate {other : Path} (plain : other.IsPlain)
    (relative : other.isAbsolute = false) (found : locate files (root.join other) = .file path) :
    files.isFile path = true ∧
      ∃ added, root.Extends added path ∧ added ≠ [] ∧ ".." ∉ added := by
  have first := root.extends_join relative
  unfold locate at found
  split at found
  · next isFile =>
    obtain rfl := Resolved.file.inj found
    exact ⟨isFile, _, first, other.segments_ne_nil, plain⟩
  · split at found
    · next isIndex =>
      obtain rfl := Resolved.file.inj found
      obtain ⟨-, isFile⟩ := Bool.and_eq_true_iff.mp isIndex
      have second := (root.join other).extends_join (by cbv : indexName.isAbsolute = false)
      obtain ⟨kept, both, isKept⟩ := first.trans other.segments_ne_nil second
      refine ⟨isFile, _, both, by simp [Path.segments_ne_nil], fun parent => ?_⟩
      rcases List.mem_append.mp parent with inKept | isIndex
      · exact plain (isKept inKept)
      · exact absurd isIndex (by decide)
    · contradiction

/-- A request is refused exactly if its URL asks for no text or for one with a segment `..`.  The
path of a file that is found is the root with segments behind it of which none is `..` or has a
slash in it; it leads from the directory at the root through names below it to a regular file. -/
theorem resolve_contained (files : FileTree) (root : Path) (url : String) :
    (resolve files root url = .badRequest ↔
      (∀ text, ¬Requests url text) ∨
        ∃ text, Requests url text ∧ ".." ∈ (⟨text⟩ : Path).segments) ∧
    ∀ path, resolve files root url = .file path →
      (∃ added, root.Extends added path ∧
        ∀ segment ∈ added, segment ≠ ".." ∧ '/' ∉ segment.toList) ∧
      ∃ place names content, files.followAll root root.segments = .ok place ∧
        files.entry? place = some .directory ∧
        names ≠ [] ∧ (∀ name ∈ names, IsName name) ∧
        files.locate path = .ok (place ++ names) ∧
        files.entry? (place ++ names) = some (.file content) := by
  refine ⟨resolve_eq_badRequest_iff, fun path resolved => ?_⟩
  obtain ⟨text, requests⟩ : ∃ text, Requests url text := by
    by_contra none
    rw [resolve_of_not_requests (not_exists.mp none)] at resolved
    contradiction
  rw [resolve_of_requests requests] at resolved
  split at resolved
  · next plain =>
    have trimmedPlain : (⟨trimSlashes text⟩ : Path).IsPlain :=
      (not_congr (mem_segments_trimSlashes (by decide))).mpr plain
    obtain ⟨isFile, added, extended, nonempty, noParent⟩ :=
      extends_of_locate trimmedPlain (isAbsolute_trimSlashes text) resolved
    have noSlash : ∀ segment ∈ added, '/' ∉ segment.toList := by
      intro segment member
      obtain ⟨front, whole, -⟩ := extended.segments
      exact Path.slash_not_mem (by rw [whole]; exact List.mem_append_right front member)
    obtain ⟨there, content, located, isContent⟩ := FileTree.isFile_iff.mp isFile
    obtain ⟨place, toRoot, isDirectory, rfl⟩ :=
      FileTree.exists_of_locate_extends extended nonempty noParent located
    refine ⟨⟨added, extended, fun segment member => ⟨?_, noSlash segment member⟩⟩, place, _,
      content, toRoot, isDirectory, fun none => ?_, fun name member => ?_, located, isContent⟩
    · rintro rfl
      exact noParent member
    · rw [none, List.append_nil, isDirectory] at isContent
      simp at isContent
    · obtain ⟨isAdded, isStep⟩ := List.mem_filter.mp member
      obtain ⟨isText, noCurrent⟩ := Path.isStep_iff.mp isStep
      exact ⟨isText, noCurrent, by rintro rfl; exact noParent isAdded, noSlash name isAdded⟩
  · contradiction

/-- A directory with an index, and a file beside the directory that is served. -/
def siteExample : FileTree where
  entries := [(["site"], .directory), (["site", "a b"], .directory),
    (["site", "a b", "index.html"], .file .empty), (["secret"], .file .empty)]
  current := ["site"]

/-- An encoded blank and slashes lead to the index, and an encoded slash does not hide a `..`. -/
theorem resolve_contained_index :
    resolve siteExample ⟨"."⟩ "/..%2Fsecret" = .badRequest ∧
      resolve siteExample ⟨"."⟩ "//a%20b/?../" = .file ⟨"./a b/index.html"⟩ ∧
      (∃ added, (⟨"."⟩ : Path).Extends added ⟨"./a b/index.html"⟩ ∧
        ∀ segment ∈ added, segment ≠ ".." ∧ '/' ∉ segment.toList) ∧
      ∃ place names content, siteExample.followAll ⟨"."⟩ (⟨"."⟩ : Path).segments = .ok place ∧
        siteExample.entry? place = some .directory ∧
        names ≠ [] ∧ (∀ name ∈ names, IsName name) ∧
        siteExample.locate ⟨"./a b/index.html"⟩ = .ok (place ++ names) ∧
        siteExample.entry? (place ++ names) = some (.file content) := by
  have asked : Requests "/..%2Fsecret" "/../secret" := decodedPath?_eq_some_iff.mp (by cbv)
  have refused := (resolve_contained siteExample ⟨"."⟩ "/..%2Fsecret").1.mpr
    (.inr ⟨"/../secret", asked, by decide⟩)
  have found : resolve siteExample ⟨"."⟩ "//a%20b/?../" = .file ⟨"./a b/index.html"⟩ := by cbv
  exact ⟨refused, found, (resolve_contained siteExample ⟨"."⟩ "//a%20b/?../").2 _ found⟩

end

end Preview
end StaticSite
