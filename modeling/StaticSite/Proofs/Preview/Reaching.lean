import Mathlib
import StaticSite.Proofs.Preview.Containment
import StaticSite.Proofs.Text.Utf8

/-!
# Previewing a site reaches every file

The key of a file, written into a URL with as many bytes encoded as one likes, is read back from it,
whatever slashes stand around it and whatever query comes behind.  Such a URL leads to the file, and
the URL of a directory to the index in it.
-/

namespace StaticSite

open Site (keyOf)

/-! ## Keys -/

namespace Path

variable {root : Path} {names : List String} {name : String}

theorem startsWith_slash_iff {text : String} :
    text.startsWith "/" = true ↔ text.toList.head? = some '/' := by
  rw [String.startsWith_string_iff]
  exact List.singleton_prefix_iff_head?_eq_some

theorem endsWith_slash_iff {text : String} :
    text.endsWith "/" = true ↔ text.toList.getLast? = some '/' := by
  rw [String.endsWith_eq_endsWith_toSlice, String.Slice.endsWith_string_iff, String.copy_toSlice]
  exact List.singleton_suffix_iff_getLast?_eq_some

theorem endsWith_append_slash {front back : String} (isText : back ≠ "") :
    (front ++ back).endsWith "/" = back.endsWith "/" := by
  have nonempty : back.toList ≠ [] := by simpa using isText
  rw [Bool.eq_iff_iff, endsWith_slash_iff, endsWith_slash_iff, String.toList_append,
    List.getLast?_append_of_ne_nil _ nonempty]

theorem startsWith_keyOf (proper : ∀ name ∈ names, IsName name) :
    (keyOf names).startsWith "/" = false := by
  rcases eq_or_ne names [] with rfl | nonempty
  · cbv
  · exact FileTree.isAbsolute_keyOf proper nonempty

theorem keyOf_ne_empty (proper : ∀ name ∈ names, IsName name) (nonempty : names ≠ []) :
    keyOf names ≠ "" := by
  intro isEmpty
  have segments := segments_ofNames nonempty proper
  rw [← keyOf, isEmpty] at segments
  have isSegment : "" ∈ names := by
    rw [← segments]
    decide
  exact (proper "" isSegment).1 rfl

theorem endsWith_keyOf (proper : ∀ name ∈ names, IsName name) :
    (keyOf names).endsWith "/" = false := by
  rcases eq_or_ne names [] with rfl | nonempty
  · cbv
  · refine Bool.eq_false_iff.mpr fun ends => ?_
    obtain ⟨chars, same⟩ := List.getLast?_eq_some_iff.mp (endsWith_slash_iff.mp ends)
    have whole : keyOf names = String.ofList chars ++ "/" ++ "" := by
      apply String.toList_inj.mp
      simpa using same
    -- the slash at the end would leave an empty name behind it
    have segments := segments_append (String.ofList chars) ""
    rw [← whole, keyOf, segments_ofNames nonempty proper] at segments
    have isLast : "" ∈ names := by
      rw [segments]
      exact List.mem_append_right _ (by decide)
    exact (proper "" isLast).1 rfl

theorem isPlain_keyOf (proper : ∀ name ∈ names, IsName name) :
    (⟨keyOf names⟩ : Path).IsPlain := by
  rcases eq_or_ne names [] with rfl | nonempty
  · decide
  · rw [IsPlain, keyOf, segments_ofNames nonempty proper]
    exact fun member => (proper ".." member).2.2.1 rfl

theorem join_of_relative {other : Path} (isText : root.text ≠ "")
    (relative : other.isAbsolute = false) :
    root.join other =
      ⟨root.text ++ (if root.text.endsWith "/" then "" else "/") ++ other.text⟩ := by
  rw [join, if_neg (by simpa [relative] using isText)]
  split <;> simp

/-- A name joined to a path to which names were joined. -/
theorem join_join_keyOf (isText : root.text ≠ "") (proper : ∀ other ∈ names, IsName other)
    (isName : IsName name) :
    (root.join ⟨keyOf names⟩).join ⟨name⟩ = root.join ⟨keyOf (names ++ [name])⟩ := by
  have both : ∀ other ∈ names ++ [name], IsName other := by
    simpa [or_imp, forall_and] using ⟨proper, isName⟩
  have lone : (⟨name⟩ : Path).isAbsolute = false := by
    have relative : (keyOf [name]).startsWith "/" = false :=
      startsWith_keyOf (by simpa using isName)
    rwa [keyOf, String.intercalate_singleton] at relative
  have few : (⟨keyOf names⟩ : Path).isAbsolute = false := startsWith_keyOf proper
  have all : (⟨keyOf (names ++ [name])⟩ : Path).isAbsolute = false := startsWith_keyOf both
  rw [join_of_relative isText few, join_of_relative isText all,
    join_of_relative (by simp [isText]) lone]
  rcases eq_or_ne names [] with rfl | nonempty
  · have none : keyOf [] = "" := by cbv
    have one : keyOf ([] ++ [name]) = name := String.intercalate_singleton
    rw [none, one]
    have slash : ("/" : String).endsWith "/" = true := by cbv
    cases ends : root.text.endsWith "/" with
    | true => simp [ends]
    | false => simp [endsWith_append_slash, slash]
  · have isKey := keyOf_ne_empty proper nonempty
    have more : keyOf (names ++ [name]) = keyOf names ++ "/" ++ name := by
      rw [keyOf, keyOf, String.intercalate_append_of_ne_nil nonempty (by simp),
        String.intercalate_singleton]
    rw [endsWith_append_slash isKey, endsWith_keyOf proper, more]
    simp [String.append_assoc]

end Path

namespace Preview

/-! ## Encoding -/

/-- Whether bytes are encoded as other bytes: any of them may be put as a per cent sign and its two
hexadecimal digits, and a per cent sign and a question mark are. -/
inductive Encodes : List UInt8 → List UInt8 → Prop
  | nil : Encodes [] []
  | plain {byte : UInt8} {rest encoded : List UInt8} (noSign : byte ≠ 0x25) (noMark : byte ≠ 0x3F)
      (others : Encodes rest encoded) : Encodes (byte :: rest) (byte :: encoded)
  | pair {high low highValue lowValue : UInt8} {rest encoded : List UInt8}
      (isHigh : hexValue? high = some highValue) (isLow : hexValue? low = some lowValue)
      (others : Encodes rest encoded) :
      Encodes ((highValue * 16 + lowValue) :: rest) (0x25 :: high :: low :: encoded)

namespace Encodes

variable {bytes encoded more moreEncoded : List UInt8}

theorem decodes (encodes : Encodes bytes encoded) : Decodes encoded bytes := by
  induction encodes with
  | nil => exact .nil
  | plain noSign noMark others induction =>
      exact .plain (fun _ _ _ isSign _ => absurd isSign noSign) induction
  | pair isHigh isLow others induction => exact .pair isHigh isLow induction

theorem append (first : Encodes bytes encoded) (second : Encodes more moreEncoded) :
    Encodes (bytes ++ more) (encoded ++ moreEncoded) := by
  induction first with
  | nil => exact second
  | plain noSign noMark others induction => exact .plain noSign noMark induction
  | pair isHigh isLow others induction => exact .pair isHigh isLow induction

/-- No question mark is left that could begin a query. -/
theorem noMark (encodes : Encodes bytes encoded) : 0x3F ∉ encoded := by
  induction encodes with
  | nil => simp
  | plain noSign noMark others induction => simp [noMark.symm, induction]
  | @pair high low highValue lowValue rest encoded isHigh isLow others induction =>
      have differs {digit value : UInt8} (isDigit : hexValue? digit = some value) :
          0x3F ≠ digit := by
        rintro rfl
        have none : hexValue? 0x3F = .none := by decide
        simp [none] at isDigit
      simp [differs isHigh, differs isLow, induction]

/-- Bytes may be left as they are if there is no per cent sign or question mark among them. -/
theorem refl (noSign : 0x25 ∉ bytes) (noMark : 0x3F ∉ bytes) : Encodes bytes bytes := by
  induction bytes with
  | nil => exact .nil
  | cons byte rest induction =>
      obtain ⟨isPlain, noSign⟩ := List.ne_and_not_mem_of_not_mem_cons noSign
      obtain ⟨isKept, noMark⟩ := List.ne_and_not_mem_of_not_mem_cons noMark
      exact .plain isPlain.symm isKept.symm (induction noSign noMark)

end Encodes

/-- Every text can be encoded as a text. -/
theorem exists_encodes (chars : List Char) :
    ∃ written : List Char,
      Encodes (chars.flatMap String.utf8EncodeChar) (written.flatMap String.utf8EncodeChar) := by
  induction chars with
  | nil => exact ⟨[], .nil⟩
  | cons c rest induction =>
      obtain ⟨written, encodes⟩ := induction
      obtain ⟨first, encoded⟩ : ∃ first : List Char,
          Encodes (String.utf8EncodeChar c) (first.flatMap String.utf8EncodeChar) := by
        have isLow : hexValue? 0x35 = some 5 := by decide
        have isHighest : hexValue? 0x46 = some 15 := by decide
        by_cases isSign : c = '%'
        · subst isSign
          have isHigh : hexValue? 0x32 = some 2 := by decide
          exact ⟨['%', '2', '5'], .pair isHigh isLow .nil⟩
        · by_cases isMark : c = '?'
          · subst isMark
            have isHigh : hexValue? 0x33 = some 3 := by decide
            exact ⟨['%', '3', 'F'], .pair isHigh isHighest .nil⟩
          · have noSign : 0x25 ∉ String.utf8EncodeChar c :=
              not_mem_utf8EncodeChar (by decide) fun same => isSign (Char.toNat_inj.mp same)
            have noMark : 0x3F ∉ String.utf8EncodeChar c :=
              not_mem_utf8EncodeChar (by decide) fun same => isMark (Char.toNat_inj.mp same)
            exact ⟨[c], by simpa using .refl noSign noMark⟩
      exact ⟨first ++ written, by simpa using encoded.append encodes⟩

/-- Some slashes. -/
def slashes (count : Nat) : String :=
  String.ofList (List.replicate count '/')

theorem encodes_slashes (count : Nat) :
    Encodes (slashes count).toUTF8.toList (slashes count).toUTF8.toList := by
  have isSlash : ∀ byte ∈ (slashes count).toUTF8.toList, byte = 0x2F := by
    rw [toList_toUTF8, slashes, String.toList_ofList]
    intro byte member
    obtain ⟨c, isChar, isByte⟩ := List.mem_flatMap.mp member
    rw [List.eq_of_mem_replicate isChar] at isByte
    exact List.mem_singleton.mp isByte
  refine .refl (fun isSign => ?_) fun isMark => ?_
  · exact absurd (isSlash _ isSign) (by decide)
  · exact absurd (isSlash _ isMark) (by decide)

/-- Whether a URL is written for a key: the key encoded between slashes, with at least one before
it, and perhaps a query. -/
def Addresses (url key : String) : Prop :=
  ∃ leading trailing path query, url = slashes (leading + 1) ++ path ++ slashes trailing ++ query ∧
    Encodes key.toUTF8.toList path.toUTF8.toList ∧ (query = "" ∨ ∃ rest, query = "?" ++ rest)

theorem exists_addresses (key : String) : ∃ url, Addresses url key := by
  obtain ⟨written, encodes⟩ := exists_encodes key.toList
  refine ⟨_, 0, 0, String.ofList written, "", rfl, ?_, .inl rfl⟩
  rwa [toList_toUTF8, toList_toUTF8, String.toList_ofList]

/-- A URL that is written for a key asks for the key between slashes. -/
theorem Addresses.requests {url key : String} (addresses : Addresses url key) :
    ∃ leading trailing, Requests url (slashes leading ++ key ++ slashes trailing) := by
  obtain ⟨leading, trailing, path, query, rfl, encodes, isQuery⟩ := addresses
  have whole := ((encodes_slashes (leading + 1)).append encodes).append (encodes_slashes trailing)
  simp only [toList_toUTF8, ← List.flatMap_append, ← String.toList_append] at whole
  simp only [← toList_toUTF8] at whole
  refine ⟨leading + 1, trailing, _, query, _, rfl, ?_, isQuery, whole.decodes,
    (toByteArray_toList _).symm⟩
  intro isMark
  refine whole.noMark ?_
  rw [toList_toUTF8]
  exact List.mem_flatMap.mpr ⟨'?', isMark, by decide⟩

theorem dropWhile_slash {chars : List Char} (noSlash : chars.head? ≠ some '/') :
    chars.dropWhile (· == '/') = chars := by
  cases chars with
  | nil => rfl
  | cons c rest => exact List.dropWhile_cons_of_neg (by simpa using noSlash)

/-- Slashes around a text are left out if it neither begins nor ends with one itself. -/
theorem trimSlashes_around {text : String} (noStart : text.startsWith "/" = false)
    (noEnd : text.endsWith "/" = false) (leading trailing : Nat) :
    trimSlashes (slashes leading ++ text ++ slashes trailing) = text := by
  have passed (count : Nat) : ∀ c ∈ List.replicate count '/', (c == '/') = true := by simp
  have front : text.toList.dropWhile (· == '/') = text.toList :=
    dropWhile_slash fun starts =>
      Bool.eq_false_iff.mp noStart (Path.startsWith_slash_iff.mpr starts)
  have back : text.toList.reverse.dropWhile (· == '/') = text.toList.reverse := by
    refine dropWhile_slash fun ends => Bool.eq_false_iff.mp noEnd (Path.endsWith_slash_iff.mpr ?_)
    rwa [List.head?_reverse] at ends
  apply String.toList_inj.mp
  simp only [trimSlashes, slashes, String.toList_append, String.toList_ofList, List.append_assoc]
  rw [List.dropWhile_append_of_pos (passed leading), List.dropWhile_append, front]
  split
  · next isEmpty => simp_all
  · rw [List.reverse_append, List.reverse_replicate, List.dropWhile_append_of_pos (passed trailing),
      back, List.reverse_reverse]

/-! ## What is found -/

variable {files : FileTree} {root path : Path} {names : List String} {name url : String}

/-- The URL of a key is looked up below the root under that key. -/
theorem resolve_of_addresses (proper : ∀ name ∈ names, IsName name)
    (addresses : Addresses url (keyOf names)) :
    resolve files root url = locate files (root.join ⟨keyOf names⟩) := by
  obtain ⟨leading, trailing, requests⟩ := addresses.requests
  have trimmed := trimSlashes_around (Path.startsWith_keyOf proper) (Path.endsWith_keyOf proper)
    leading trailing
  have plain : (⟨slashes leading ++ keyOf names ++ slashes trailing⟩ : Path).IsPlain := by
    refine (not_congr (mem_segments_trimSlashes (by decide))).mp ?_
    rw [trimmed]
    exact Path.isPlain_keyOf proper
  rw [resolve_of_requests requests, if_pos plain, trimmed]

/-- What holds a file is a directory. -/
theorem isDirectory_of_isFile_join (isText : path.text ≠ "") (isName : IsName name)
    (isFile : files.isFile (path.join ⟨name⟩) = true) :
    files.isDirectory path = true ∧ files.isFile path = false := by
  have proper : ∀ other ∈ [name], IsName other := by simpa using isName
  have key : keyOf [name] = name := String.intercalate_singleton
  have relative : (⟨keyOf [name]⟩ : Path).isAbsolute = false := Path.startsWith_keyOf proper
  obtain ⟨there, content, located, -⟩ := FileTree.isFile_iff.mp isFile
  rw [← key] at located
  obtain ⟨place, toPath⟩ := FileTree.exists_locate_of_join isText relative located
  rw [FileTree.locate_join toPath proper (by simp), Except.bind_eq_ok_iff] at located
  obtain ⟨-, -, onward⟩ := located
  rw [List.foldlM_cons, Except.bind_eq_ok_iff] at onward
  obtain ⟨next, followed, -⟩ := onward
  have stands := (FileTree.follow_cases followed).1
  simp [FileTree.isDirectory, FileTree.isFile, FileTree.at?, toPath, stands, Except.toOption]

/-- Every file below a root is reached: there is a URL for its key, and each such URL leads to the
file.  An index is also reached by each URL for the key of its directory. -/
theorem resolve_reaches (isText : root.text ≠ "") (proper : ∀ name ∈ names, IsName name)
    (isFile : files.isFile (root.join ⟨keyOf names⟩) = true) :
    (∃ url, Addresses url (keyOf names)) ∧
    (∀ url, Addresses url (keyOf names) →
      resolve files root url = .file (root.join ⟨keyOf names⟩)) ∧
    ∀ front, names = front ++ ["index.html"] → ∀ url, Addresses url (keyOf front) →
      resolve files root url = .file (root.join ⟨keyOf names⟩) := by
  refine ⟨exists_addresses _, fun url addresses => ?_, ?_⟩
  · rw [resolve_of_addresses proper addresses, locate, if_pos isFile]
  · rintro front rfl url addresses
    obtain ⟨frontProper, -⟩ := List.forall_mem_append.mp proper
    have isName : IsName "index.html" := by decide
    have joined := Path.join_join_keyOf isText frontProper isName
    have isText : (root.join ⟨keyOf front⟩).text ≠ "" := by
      have relative : (⟨keyOf front⟩ : Path).isAbsolute = false :=
        Path.startsWith_keyOf frontProper
      simp [Path.join_of_relative isText relative, isText]
    rw [← joined] at isFile ⊢
    obtain ⟨isDirectory, noFile⟩ := isDirectory_of_isFile_join isText isName isFile
    rw [resolve_of_addresses frontProper addresses, locate, if_neg (by simp [noFile]),
      if_pos (by simpa [isDirectory, indexName] using isFile)]
    rfl

/-- A directory with a name that cannot stand in a URL as it is. -/
def signExample : FileTree where
  entries := [(["site"], .directory), (["site", "%"], .directory),
    (["site", "%", "index.html"], .file .empty)]
  current := ["site"]

/-- Its index is reached by the URL of the directory, with slashes and a query around it. -/
theorem resolve_reaches_sign :
    (⟨"."⟩ : Path).text ≠ "" ∧ (∀ name ∈ ["%", "index.html"], IsName name) ∧
      signExample.isFile ((⟨"."⟩ : Path).join ⟨keyOf ["%", "index.html"]⟩) = true ∧
      Addresses "//%25/?x" (keyOf ["%"]) ∧
      resolve signExample ⟨"."⟩ "//%25/?x" = .file ⟨"./%/index.html"⟩ := by
  have proper : ∀ name ∈ ["%", "index.html"], IsName name := by decide
  have isFile : signExample.isFile ((⟨"."⟩ : Path).join ⟨keyOf ["%", "index.html"]⟩) = true := by
    cbv
  have encodes : Encodes (keyOf ["%"]).toUTF8.toList "%25".toUTF8.toList := by
    have isHigh : hexValue? 0x32 = some 2 := by decide
    have isLow : hexValue? 0x35 = some 5 := by decide
    have written : "%25".toUTF8.toList = [0x25, 0x32, 0x35] := by cbv
    have key : (keyOf ["%"]).toUTF8.toList = [2 * 16 + 5] := by cbv
    rw [written, key]
    exact .pair isHigh isLow .nil
  have addresses : Addresses "//%25/?x" (keyOf ["%"]) :=
    ⟨1, 1, "%25", "?x", by cbv, encodes, .inr ⟨"x", by cbv⟩⟩
  have found := (resolve_reaches (by decide) proper isFile).2.2 ["%"] rfl _ addresses
  have joined : (⟨"."⟩ : Path).join ⟨keyOf ["%", "index.html"]⟩ = ⟨"./%/index.html"⟩ := by cbv
  exact ⟨by decide, proper, isFile, addresses, found.trans (by rw [joined])⟩

end Preview

end StaticSite
